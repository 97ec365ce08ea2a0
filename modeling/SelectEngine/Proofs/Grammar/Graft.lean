import SelectEngine.Proofs.Grammar.Relabel

/-!
# Expressions in place of parameters

`Statement.graft f g` is the statement with other leaves, in which an expression stands for each of
its parameters. The reader of statements looks neither at the leaves that it is given nor at the
operands that it has read: what it makes of a token does not change with them (`Stage.feed_graft`).
So reading with other leaves gives the statement with other leaves (`Stage.feed_map`), and a
statement may be read with its texts as leaves and the result carried over to the numbers of its
tokens.
-/

set_option autoImplicit false

namespace SelectEngine

variable {τ ρ : Type}

/-! ## Statements -/

mutual

/-- The expression with other leaves and with expressions for its parameters. -/
def Expr.graft (f : τ → ρ) (g : τ → Expr ρ) : Expr τ → Expr ρ
  | .text leaf => .text (f leaf)
  | .number leaf => .number (f leaf)
  | .null leaf => .null (f leaf)
  | .param leaf => g leaf
  | .name parts => .name (parts.map f)
  | .call function args => .call (f function) (Expr.graftAll f g args)
  | .unary op operand => .unary op (operand.graft f g)
  | .binary op left right => .binary op (left.graft f g) (right.graft f g)

def Expr.graftAll (f : τ → ρ) (g : τ → Expr ρ) : List (Expr τ) → List (Expr ρ)
  | [] => []
  | e :: es => e.graft f g :: Expr.graftAll f g es

end

theorem Expr.graftAll_eq_map (f : τ → ρ) (g : τ → Expr ρ) (es : List (Expr τ)) :
    Expr.graftAll f g es = es.map (Expr.graft f g) := by
  induction es with
  | nil => rfl
  | cons e es ih => rw [graftAll, ih, List.map_cons]

def Attribute.graft (f : τ → ρ) (g : τ → Expr ρ) : Attribute τ → Attribute ρ
  | star leaf => .star (f leaf)
  | starOf parts leaf => .starOf (parts.map f) (f leaf)
  | value e naming => .value (e.graft f g) (naming.map (Naming.map f))

def Restriction.graft (f : τ → ρ) (g : τ → Expr ρ) (r : Restriction τ) : Restriction ρ :=
  ⟨f r.keyword, r.condition.graft f g⟩

/-- The statement with other leaves and with expressions for its parameters. -/
def Statement.graft (f : τ → ρ) (g : τ → Expr ρ) (s : Statement τ) : Statement ρ :=
  ⟨f s.select, s.attributes.map (Attribute.graft f g), f s.from_, s.sources.map (FromItem.map f),
    s.restriction.map (Restriction.graft f g)⟩

namespace Grammar

/-! ## What the reader holds -/

def Pending.graft (f : τ → ρ) (g : τ → Expr ρ) : Pending τ → Pending ρ
  | binary op left => .binary op (left.graft f g)
  | leading op => .leading op
  | paren => .paren
  | call function args => .call (f function) (args.map (Expr.graft f g))

def Phase.graft (f : τ → ρ) (g : τ → Expr ρ) : Phase τ → Phase ρ
  | operand => .operand
  | firstArgument => .firstArgument
  | operator left => .operator (left.graft f g)
  | name parts => .name (parts.map f)
  | nameDot parts => .nameDot (parts.map f)
  | isTest e => .isTest (e.graft f g)
  | isNotTest e => .isNotTest (e.graft f g)

def State.graft (f : τ → ρ) (g : τ → Expr ρ) (s : State τ) : State ρ :=
  ⟨s.stack.map (Pending.graft f g), s.phase.graft f g, s.allowStar⟩

def Progress.graft (f : τ → ρ) (g : τ → Expr ρ) : Progress τ → Progress ρ
  | more s => .more (s.graft f g)
  | finished e => .finished (e.graft f g)
  | starOf parts star => .starOf (parts.map f) (f star)

def Head.graft (f : τ → ρ) (g : τ → Expr ρ) (h : Head τ) : Head ρ :=
  ⟨f h.select, h.attributes.map (Attribute.graft f g)⟩

def Body.graft (f : τ → ρ) (g : τ → Expr ρ) (b : Body τ) : Body ρ :=
  ⟨f b.select, b.attributes.map (Attribute.graft f g), f b.from_, b.sources.map (FromItem.map f)⟩

def Stage.graft (f : τ → ρ) (g : τ → Expr ρ) : Stage τ → Stage ρ
  | .start => .start
  | .attribute head => .attribute (head.graft f g)
  | .attributeExpr head expr => .attributeExpr (head.graft f g) (expr.graft f g)
  | .attributeName head value keyword =>
    .attributeName (head.graft f g) (value.graft f g) (f keyword)
  | .attributeEnd head last => .attributeEnd (head.graft f g) (last.graft f g)
  | .source body => .source (body.graft f g)
  | .sourceParts body parts => .sourceParts (body.graft f g) (parts.map f)
  | .sourceDot body parts => .sourceDot (body.graft f g) (parts.map f)
  | .sourceName body parts keyword => .sourceName (body.graft f g) (parts.map f) (f keyword)
  | .sourceEnd body => .sourceEnd (body.graft f g)
  | .condition body keyword expr => .condition (body.graft f g) (f keyword) (expr.graft f g)
  | .closed statement => .closed (statement.graft f g)

def Outcome.graft (f : τ → ρ) (g : τ → Expr ρ) : Outcome τ → Outcome ρ
  | more stage => .more (stage.graft f g)
  | accepted statement => .accepted (statement.graft f g)

/-! ## Reading an expression -/

variable (f : τ → ρ) (g : τ → Expr ρ)

/-- The operators that are applied do not depend on the operands. -/
theorem reduce_graft (least : Nat) : ∀ (stack : List (Pending τ)) (operand : Expr τ),
    reduce least (operand.graft f g) (stack.map (Pending.graft f g)) =
      ((reduce least operand stack).1.graft f g,
        (reduce least operand stack).2.map (Pending.graft f g))
  | [], operand => by simp [reduce]
  | .binary op left :: stack, operand => by
    simp only [List.map_cons, Pending.graft, reduce]
    split
    · exact reduce_graft least stack (.binary op left operand)
    · rfl
  | .leading op :: stack, operand => by
    simp only [List.map_cons, Pending.graft, reduce]
    split
    · exact reduce_graft least stack (.unary op operand)
    · rfl
  | .paren :: stack, operand => by simp [Pending.graft, reduce]
  | .call function args :: stack, operand => by simp [Pending.graft, reduce]

namespace State

variable (s : State τ) (kind : TokenKind) (leaf : τ)

theorem onOperand_graft (hleaf : kind = .question → g leaf = .param (f leaf)) :
    (s.graft f g).onOperand kind (f leaf) = (s.onOperand kind leaf).map (Progress.graft f g) := by
  cases kind with
  | question =>
    have hparam : (Expr.param leaf).graft f g = .param (f leaf) := hleaf rfl
    simp only [onOperand, Option.map_some, Progress.graft, State.graft, Phase.graft, hparam]
  | _ => rfl

theorem onFirstArgument_of_ne {kind : TokenKind} (h : kind ≠ .rparen) :
    s.onFirstArgument kind leaf = s.onOperand kind leaf := by
  unfold onFirstArgument
  split
  · exact absurd rfl h
  · rfl

theorem onFirstArgument_graft (hleaf : kind = .question → g leaf = .param (f leaf)) :
    (s.graft f g).onFirstArgument kind (f leaf) =
      (s.onFirstArgument kind leaf).map (Progress.graft f g) := by
  by_cases h : kind = .rparen
  · -- A call without arguments is closed.
    subst h
    obtain ⟨stack, phase, allowStar⟩ := s
    cases stack with
    | nil => rfl
    | cons p stack =>
      cases p with
      | call function args =>
        simp [onFirstArgument, State.graft, Pending.graft, Progress.graft, Phase.graft, Expr.graft,
          Expr.graftAll_eq_map, List.map_reverse]
      | binary | leading | paren => rfl
  · rw [onFirstArgument_of_ne _ _ h, onFirstArgument_of_ne _ _ h]
    exact onOperand_graft f g s kind leaf hleaf

theorem afterOperand_graft (left : Expr τ) :
    (s.graft f g).afterOperand (left.graft f g) kind =
      (s.afterOperand left kind).map (Progress.graft f g) := by
  unfold afterOperand
  cases kind.binary? with
  | some op =>
    simp only [State.graft, reduce_graft]
    rfl
  | none =>
    dsimp only
    split
    · simp only [State.graft, reduce_graft]
      rfl
    · simp only [State.graft, reduce_graft]
      generalize reduce 0 left s.stack = reduced
      obtain ⟨operand, stack⟩ := reduced
      cases stack with
      | nil => rfl
      | cons p stack =>
        cases p with
        | paren => cases kind <;> rfl
        | call function args =>
          cases kind <;> simp [Pending.graft, Progress.graft, State.graft, Phase.graft, Expr.graft,
            Expr.graftAll_eq_map, List.map_reverse]
        | binary | leading => cases kind <;> rfl

theorem onName_graft (parts : List τ) :
    (s.graft f g).onName (parts.map f) kind = (s.onName parts kind).map (Progress.graft f g) := by
  have hafter := afterOperand_graft f g s kind (.name parts)
  rcases parts with _ | ⟨function, _ | ⟨part, more⟩⟩
  · cases kind <;> first | exact hafter | rfl
  · cases kind <;> first | exact hafter | rfl
  · cases kind <;> first | exact hafter | rfl

theorem onNameDot_graft (parts : List τ) :
    (s.graft f g).onNameDot (parts.map f) kind (f leaf) =
      (s.onNameDot parts kind leaf).map (Progress.graft f g) := by
  obtain ⟨stack, phase, allowStar⟩ := s
  cases stack with
  | nil =>
    cases allowStar <;> cases kind <;>
      simp [onNameDot, State.graft, Progress.graft, Phase.graft]
  | cons p stack =>
    cases kind <;> simp [onNameDot, State.graft, Progress.graft, Phase.graft]

/-- The reader of an expression does not look at leaves, or at what stands for a parameter. -/
theorem feed_graft (hleaf : kind = .question → g leaf = .param (f leaf)) :
    (s.graft f g).feed kind (f leaf) = (s.feed kind leaf).map (Progress.graft f g) := by
  obtain ⟨stack, phase, allowStar⟩ := s
  cases phase with
  | operand => exact onOperand_graft f g _ kind leaf hleaf
  | firstArgument => exact onFirstArgument_graft f g _ kind leaf hleaf
  | operator left => exact afterOperand_graft f g _ kind left
  | name parts => exact onName_graft f g _ kind parts
  | nameDot parts => exact onNameDot_graft f g _ kind leaf parts
  | isTest operand => cases kind <;> rfl
  | isNotTest operand => cases kind <;> rfl

end State

/-! ## Reading a statement -/

namespace Stage

variable (kind : TokenKind) (leaf : τ)

theorem close_graft (b : Body τ) (restriction : Option (Restriction τ)) :
    (b.graft f g).close (restriction.map (Restriction.graft f g)) =
      (b.close restriction).graft f g := by
  simp [Body.close, Body.graft, Statement.graft, List.map_reverse]

theorem afterAttribute_graft (head : Head τ) (last : Attribute τ) :
    afterAttribute (head.graft f g) (last.graft f g) kind (f leaf) =
      (afterAttribute head last kind leaf).map (Outcome.graft f g) := by
  cases kind <;> rfl

theorem onAttributeExpr_graft (hleaf : kind = .question → g leaf = .param (f leaf)) (head : Head τ)
    (expr : State τ) :
    onAttributeExpr (head.graft f g) (expr.graft f g) kind (f leaf) =
      (onAttributeExpr head expr kind leaf).map (Outcome.graft f g) := by
  unfold onAttributeExpr
  rw [State.feed_graft f g expr kind leaf hleaf]
  cases expr.feed kind leaf with
  | none => rfl
  | some progress =>
    cases progress with
    | more s => rfl
    | starOf parts star => rfl
    | finished value =>
      -- The token is one behind the expression that has ended.
      have hafter := afterAttribute_graft f g kind leaf head (.value value none)
      cases kind <;> first | exact hafter | rfl

theorem afterSource_graft (body : Body τ) :
    afterSource (body.graft f g) kind (f leaf) =
      (afterSource body kind leaf).map (Outcome.graft f g) := by
  have hclose := close_graft f g body none
  cases kind <;> first | rfl | exact congrArg (fun s => some (Outcome.more (.closed s))) hclose |
    exact congrArg (fun s => some (Outcome.accepted s)) hclose

theorem onSourceParts_graft (body : Body τ) (parts : List τ) :
    onSourceParts (body.graft f g) (parts.map f) kind (f leaf) =
      (onSourceParts body parts kind leaf).map (Outcome.graft f g) := by
  have hafter := afterSource_graft f g kind leaf (addSource body parts none)
  have hlength : (parts.map f).length = parts.length := List.length_map f
  cases kind with
  | dot =>
    simp only [onSourceParts, hlength]
    split <;> rfl
  | comma | kwWhere | semicolon | eof => exact hafter
  | _ => rfl

theorem onCondition_graft (hleaf : kind = .question → g leaf = .param (f leaf)) (body : Body τ)
    (keyword : τ) (expr : State τ) :
    onCondition (body.graft f g) (f keyword) (expr.graft f g) kind (f leaf) =
      (onCondition body keyword expr kind leaf).map (Outcome.graft f g) := by
  unfold onCondition
  rw [State.feed_graft f g expr kind leaf hleaf]
  cases expr.feed kind leaf with
  | none => rfl
  | some progress =>
    cases progress with
    | more s => rfl
    | starOf parts star => rfl
    | finished test =>
      have hclose := close_graft f g body (some ⟨keyword, test⟩)
      cases kind <;> first | rfl |
        exact congrArg (fun s => some (Outcome.more (.closed s))) hclose |
        exact congrArg (fun s => some (Outcome.accepted s)) hclose

/-- The reader of a statement does not look at leaves, or at what stands for a parameter. -/
theorem feed_graft (hleaf : kind = .question → g leaf = .param (f leaf)) (stage : Stage τ) :
    (stage.graft f g).feed kind (f leaf) = (stage.feed kind leaf).map (Outcome.graft f g) := by
  cases stage with
  | start =>
    simp only [Stage.graft, feed]
    split <;> rfl
  | «attribute» head =>
    simp only [Stage.graft, feed]
    split
    · rfl
    · exact onAttributeExpr_graft f g kind leaf hleaf head (State.start true)
  | attributeExpr head expr => exact onAttributeExpr_graft f g kind leaf hleaf head expr
  | attributeName head value keyword =>
    simp only [Stage.graft, feed]
    split <;> rfl
  | attributeEnd head last => exact afterAttribute_graft f g kind leaf head last
  | source body =>
    simp only [Stage.graft, feed]
    split <;> rfl
  | sourceParts body parts => exact onSourceParts_graft f g kind leaf body parts
  | sourceDot body parts =>
    simp only [Stage.graft, feed]
    split
    · simp [Outcome.graft, Stage.graft]
    · rfl
  | sourceName body parts keyword =>
    simp only [Stage.graft, feed]
    split <;> rfl
  | sourceEnd body => exact afterSource_graft f g kind leaf body
  | condition body keyword expr => exact onCondition_graft f g kind leaf hleaf body keyword expr
  | closed statement =>
    simp only [Stage.graft, feed]
    split <;> rfl

end Stage

end Grammar

/-! ## Other leaves alone -/

variable (f : τ → ρ)

mutual

theorem Expr.graft_param : ∀ e : Expr τ, e.graft f (fun leaf => .param (f leaf)) = e.map f
  | .text _ | .number _ | .null _ | .param _ | .name _ => rfl
  | .call function args => by rw [graft, map, Expr.graftAll_param args]
  | .unary op operand => by rw [graft, map, Expr.graft_param operand]
  | .binary op left right => by
    rw [graft, map, Expr.graft_param left, Expr.graft_param right]

theorem Expr.graftAll_param : ∀ es : List (Expr τ),
    Expr.graftAll f (fun leaf => .param (f leaf)) es = Expr.mapAll f es
  | [] => rfl
  | e :: es => by rw [graftAll, mapAll, Expr.graft_param e, Expr.graftAll_param es]

end

theorem Attribute.graft_param :
    Attribute.graft f (fun leaf => .param (f leaf)) = Attribute.map f := by
  funext a
  cases a with
  | value e naming => rw [graft, map, Expr.graft_param]
  | star | starOf => rfl

theorem Restriction.graft_param :
    Restriction.graft f (fun leaf => .param (f leaf)) = Restriction.map f := by
  funext r
  rw [graft, map, Expr.graft_param]

theorem Statement.graft_param (s : Statement τ) :
    s.graft f (fun leaf => .param (f leaf)) = s.map f := by
  rw [graft, map, Attribute.graft_param, Restriction.graft_param]

namespace Grammar

theorem State.graft_param (s : State τ) :
    s.graft f (fun leaf => .param (f leaf)) = s.map f := by
  have hexpr : Expr.graft f (fun leaf => .param (f leaf)) = Expr.map f :=
    funext (Expr.graft_param f)
  have hpending : Pending.graft f (fun leaf => .param (f leaf)) = Pending.map f := by
    funext p
    cases p <;> simp only [Pending.graft, Pending.map, hexpr]
  have hphase : s.phase.graft f (fun leaf => .param (f leaf)) = s.phase.map f := by
    cases s.phase <;> simp only [Phase.graft, Phase.map, hexpr]
  rw [State.graft, State.map, hpending, hphase]

/-- The reader of an expression does not look at leaves. -/
theorem State.feed_map (kind : TokenKind) (leaf : τ) (s : State τ) :
    (s.map f).feed kind (f leaf) = (s.feed kind leaf).map (Progress.map f) := by
  have hprogress : Progress.graft f (fun leaf => .param (f leaf)) = Progress.map f := by
    funext progress
    cases progress <;> simp only [Progress.graft, Progress.map, State.graft_param, Expr.graft_param]
  rw [← State.graft_param, ← hprogress]
  exact State.feed_graft f _ s kind leaf fun _ => rfl

theorem Stage.graft_param (stage : Stage τ) :
    stage.graft f (fun leaf => .param (f leaf)) = stage.map f := by
  cases stage <;>
    simp only [Stage.graft, Stage.map, Head.graft, Head.map, Body.graft, Body.map,
      Attribute.graft_param, Expr.graft_param, State.graft_param, Statement.graft_param]

theorem Outcome.graft_param :
    Outcome.graft f (fun leaf => .param (f leaf)) = Outcome.map f := by
  funext outcome
  cases outcome with
  | more stage => rw [graft, map, Stage.graft_param]
  | accepted statement => rw [graft, map, Statement.graft_param]

/-- The reader of a statement does not look at leaves. -/
theorem Stage.feed_map (kind : TokenKind) (leaf : τ) (stage : Stage τ) :
    (stage.map f).feed kind (f leaf) = (stage.feed kind leaf).map (Outcome.map f) := by
  rw [← Stage.graft_param, ← Outcome.graft_param]
  exact Stage.feed_graft f _ kind leaf (fun _ => rfl) stage

end Grammar

end SelectEngine
