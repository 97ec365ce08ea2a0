import SelectEngine.Proofs.Grammar.Reading

/-!
# The leaves of a statement stand in the order of its tokens

`Statement.leaves` lists the leaves of a statement as its text has them, each with the type of the
node that stands for it. Everything that the reader holds has such a list, and a token that is
consumed adds itself at its end, or nothing if it is a sign, an operator or a part of a null test
(`Stage.leaves_feed`). So the leaves of a statement that has been read are tokens in the order in
which they were read, none lost, doubled or moved (`Stage.leaves_run`).
-/

set_option autoImplicit false

namespace SelectEngine

variable {τ : Type}

/-- A leaf with the type of the node that stands for it. -/
abbrev Leaf (τ : Type) := NodeType × τ

/-! ## Statements -/

/-- The parts of a name. -/
def partLeaves (parts : List τ) : List (Leaf τ) := parts.map fun part => (.id, part)

mutual

def Expr.leaves : Expr τ → List (Leaf τ)
  | .text leaf => [(.text, leaf)]
  | .number leaf => [(.number, leaf)]
  | .null leaf => [(.null, leaf)]
  | .param leaf => [(.param, leaf)]
  | .name parts => partLeaves parts
  | .call function args => (.id, function) :: Expr.leavesAll args
  | .unary _ operand => operand.leaves
  | .binary _ left right => left.leaves ++ right.leaves

def Expr.leavesAll : List (Expr τ) → List (Leaf τ)
  | [] => []
  | e :: es => e.leaves ++ Expr.leavesAll es

end

theorem Expr.leavesAll_eq_flatMap (es : List (Expr τ)) :
    Expr.leavesAll es = es.flatMap leaves := by
  induction es with
  | nil => rfl
  | cons e es ih => rw [leavesAll, ih, List.flatMap_cons]

def Naming.leaves (naming : Naming τ) : List (Leaf τ) :=
  (naming.keyword.map fun keyword => (.token, keyword)).toList ++ [(.id, naming.name)]

/-- The name given to something, if it is given one. -/
def namingLeaves (naming : Option (Naming τ)) : List (Leaf τ) := naming.elim [] Naming.leaves

def Attribute.leaves : Attribute τ → List (Leaf τ)
  | star leaf => [(.token, leaf)]
  | starOf parts leaf => partLeaves parts ++ [(.token, leaf)]
  | value e naming => e.leaves ++ namingLeaves naming

def FromItem.leaves (s : FromItem τ) : List (Leaf τ) := partLeaves s.parts ++ namingLeaves s.naming

def Restriction.leaves (r : Restriction τ) : List (Leaf τ) :=
  (.token, r.keyword) :: r.condition.leaves

/-- The leaves of a statement in the order of its text. -/
def Statement.leaves (s : Statement τ) : List (Leaf τ) :=
  (.token, s.select) :: s.attributes.flatMap Attribute.leaves ++
    ((.token, s.from_) :: s.sources.flatMap FromItem.leaves) ++
    s.restriction.elim [] Restriction.leaves

namespace Statement

variable {s : Statement τ} {leaf : Leaf τ}

theorem mem_leaves_of_sources (h : leaf ∈ s.sources.flatMap FromItem.leaves) : leaf ∈ s.leaves :=
  List.mem_append_left _ (List.mem_append_right _ (List.mem_cons_of_mem _ h))

theorem mem_leaves_of_attributes (h : leaf ∈ s.attributes.flatMap Attribute.leaves) :
    leaf ∈ s.leaves :=
  List.mem_append_left _ (List.mem_append_left _ (List.mem_cons_of_mem _ h))

theorem mem_leaves_of_condition {r : Restriction τ} (hr : s.restriction = some r)
    (h : leaf ∈ r.condition.leaves) : leaf ∈ s.leaves := by
  rw [leaves, hr]
  exact List.mem_append_right _ (List.mem_cons_of_mem _ h)

end Statement

namespace Grammar

/-! ## What the reader holds -/

def Pending.leaves : Pending τ → List (Leaf τ)
  | binary _ left => left.leaves
  | leading _ | paren => []
  | call function args => (.id, function) :: args.reverse.flatMap Expr.leaves

/-- The leaves of what is open, of which the innermost comes first. -/
def stackLeaves : List (Pending τ) → List (Leaf τ)
  | [] => []
  | p :: stack => stackLeaves stack ++ p.leaves

def Phase.leaves : Phase τ → List (Leaf τ)
  | operand | firstArgument => []
  | operator left => left.leaves
  | name parts | nameDot parts => partLeaves parts
  | isTest e | isNotTest e => e.leaves

/-- A null test is being read, of which no keyword is a leaf. -/
def Phase.testsNull : Phase τ → Bool
  | isTest _ | isNotTest _ => true
  | _ => false

def State.leaves (s : State τ) : List (Leaf τ) := stackLeaves s.stack ++ s.phase.leaves

def Progress.leaves : Progress τ → List (Leaf τ)
  | more s => s.leaves
  | finished e => e.leaves
  | starOf parts star => partLeaves parts ++ [(.token, star)]

def Head.leaves (h : Head τ) : List (Leaf τ) :=
  (.token, h.select) :: h.attributes.reverse.flatMap Attribute.leaves

def Body.leaves (b : Body τ) : List (Leaf τ) :=
  (.token, b.select) :: b.attributes.reverse.flatMap Attribute.leaves ++
    ((.token, b.from_) :: b.sources.reverse.flatMap FromItem.leaves)

def Stage.leaves : Stage τ → List (Leaf τ)
  | .start => []
  | .attribute head => head.leaves
  | .attributeExpr head expr => head.leaves ++ expr.leaves
  | .attributeName head value keyword => head.leaves ++ value.leaves ++ [(.token, keyword)]
  | .attributeEnd head last => head.leaves ++ last.leaves
  | .source body | .sourceEnd body => body.leaves
  | .sourceParts body parts | .sourceDot body parts => body.leaves ++ partLeaves parts
  | .sourceName body parts keyword => body.leaves ++ partLeaves parts ++ [(.token, keyword)]
  | .condition body keyword expr => body.leaves ++ ((.token, keyword) :: expr.leaves)
  | .closed statement => statement.leaves

def Outcome.leaves : Outcome τ → List (Leaf τ)
  | more stage => stage.leaves
  | accepted statement => statement.leaves

/-! ## Leaves of tokens -/

/-- The type of the leaf that a token is inside an expression, if it is one wherever it stands. -/
def operandType? : TokenKind → Option NodeType
  | .ident | .quotedIdent => some .id
  | .string => some .text
  | .number => some .number
  | .question => some .param
  | .kwNull => some .null
  | _ => none

/-- The leaf that a token is if it is one of this type. -/
def leafOf (type : Option NodeType) (leaf : τ) : List (Leaf τ) :=
  (type.map fun type => (type, leaf)).toList

/-- The type of the leaf that a token inside an expression is. -/
def State.leafType? (s : State τ) (kind : TokenKind) : Option NodeType :=
  if s.phase.testsNull then none else operandType? kind

/-- A star here ends `name.*`. -/
def State.starDue (s : State τ) : Bool :=
  match s with
  | ⟨[], .nameDot _, allowStar⟩ => allowStar
  | _ => false

/-- A keyword that begins a clause, or a name. -/
def opensClause : TokenKind → Bool
  | .kwSelect | .kwFrom | .kwWhere | .kwAs => true
  | _ => false

/-- The type of the leaf that a token is at a stage. Inside an expression the stage of the
expression decides; a star that does not multiply and the keywords of the clauses are leaves
besides. -/
def Stage.leafType? (stage : Stage τ) (kind : TokenKind) : Option NodeType :=
  if opensClause kind then some .token
  else
    match stage with
    | .attribute _ => if kind = .star then some .token else operandType? kind
    | .attributeExpr _ expr =>
      if kind = .star ∧ expr.starDue then some .token else expr.leafType? kind
    | .condition _ _ expr => expr.leafType? kind
    | _ => operandType? kind

/-! ## Reading an expression -/

/-- Applying operators moves no leaf. -/
theorem leaves_reduce (least : Nat) : ∀ (stack : List (Pending τ)) (operand : Expr τ),
    stackLeaves (reduce least operand stack).2 ++ (reduce least operand stack).1.leaves =
      stackLeaves stack ++ operand.leaves
  | [], _ => rfl
  | .binary op left :: stack, operand => by
    rw [reduce]
    split
    · rw [leaves_reduce least stack, Expr.leaves, stackLeaves, Pending.leaves, List.append_assoc]
    · rfl
  | .leading op :: stack, operand => by
    rw [reduce]
    split
    · rw [leaves_reduce least stack, Expr.leaves, stackLeaves, Pending.leaves, List.append_nil]
    · rfl
  | .paren :: _, _ | .call _ _ :: _, _ => rfl

namespace State

variable {s : State τ} {kind : TokenKind} {leaf : τ} {progress : Progress τ}

/-- What became of the leaves that the reader of an expression holds and of the token. -/
inductive Takes (s : State τ) (kind : TokenKind) (leaf : τ) : Progress τ → Prop
  | more {later : State τ} (hclause : opensClause kind = false)
      (hstar : kind = .star → s.starDue = false)
      (hleaves : later.leaves = s.leaves ++ leafOf (s.leafType? kind) leaf) :
      Takes s kind leaf (.more later)
  | finished {e : Expr τ} (hstar : kind ≠ .star) (htest : s.phase.testsNull = false)
      (hleaves : e.leaves = s.leaves) : Takes s kind leaf (.finished e)
  | starOf {parts : List τ} (hstar : kind = .star) (hdue : s.starDue = true)
      (hleaves : partLeaves parts = s.leaves) : Takes s kind leaf (.starOf parts leaf)

theorem leafType?_of_eq (htest : s.phase.testsNull = false) :
    s.leafType? kind = operandType? kind := by
  rw [leafType?, htest]
  rfl

theorem takes_onOperand (hphase : s.phase.leaves = []) (htest : s.phase.testsNull = false)
    (h : s.onOperand kind leaf = some progress) : s.Takes kind leaf progress := by
  have htype : s.leafType? kind = operandType? kind := leafType?_of_eq htest
  have hleaves : s.leaves = stackLeaves s.stack := by rw [leaves, hphase, List.append_nil]
  cases kind with
  | number | string | kwNull | question | ident | quotedIdent =>
    cases h
    exact .more rfl nofun (by rw [hleaves, htype]; rfl)
  | lparen | minus | plus | kwNot =>
    cases h
    refine .more rfl nofun ?_
    rw [hleaves, htype]
    simp [leaves, stackLeaves, Pending.leaves, Phase.leaves, operandType?, leafOf]
  | _ => cases h

theorem takes_onFirstArgument (hphase : s.phase = .firstArgument)
    (h : s.onFirstArgument kind leaf = some progress) : s.Takes kind leaf progress := by
  unfold onFirstArgument at h
  split at h
  · next function args stack hstack =>
    cases h
    refine .more rfl nofun ?_
    rw [leafType?, leaves, leaves, hphase, hstack]
    simp [Phase.testsNull, Phase.leaves, stackLeaves, Pending.leaves, Expr.leaves,
      Expr.leavesAll_eq_flatMap, operandType?, leafOf]
  · exact takes_onOperand (by rw [hphase]; rfl) (by rw [hphase]; rfl) h

/-- What follows an operand is no leaf of the expression, or ends it. -/
theorem takes_afterOperand {left : Expr τ} (hphase : s.phase.leaves = left.leaves)
    (htest : s.phase.testsNull = false) (hdue : s.starDue = false)
    (h : s.afterOperand left kind = some progress) : s.Takes kind leaf progress := by
  have htype : s.leafType? kind = operandType? kind := leafType?_of_eq htest
  have hleaves : s.leaves = stackLeaves s.stack ++ left.leaves := by rw [leaves, hphase]
  unfold afterOperand at h
  split at h
  · -- An operator of two operands applies the stronger ones in front of it.
    next op hop =>
    cases h
    have hkind : opensClause kind = false ∧ operandType? kind = none := by
      cases kind <;> first | exact ⟨rfl, rfl⟩ | cases hop
    refine .more hkind.1 (fun _ => hdue) ?_
    rw [hleaves, htype, hkind.2, ← leaves_reduce op.strength s.stack left]
    simp [leaves, stackLeaves, Pending.leaves, Phase.leaves, leafOf]
  · next hop =>
    split at h
    · next his =>
      subst his
      cases h
      refine .more rfl nofun ?_
      rw [hleaves, htype, ← leaves_reduce Operator.isNull.strength s.stack left]
      simp [leaves, Phase.leaves, operandType?, leafOf]
    · -- Anything else ends the operand, after all operators in front of it have been applied. What
      -- is open then decides: a parenthesis, a call, or nothing.
      rw [← leaves_reduce 0 s.stack left] at hleaves
      generalize reduce 0 left s.stack = reduced at h hleaves
      split at h
      · cases h
        refine .more rfl nofun ?_
        rw [hleaves, htype]
        simp [leaves, stackLeaves, Pending.leaves, Phase.leaves, operandType?, leafOf]
      · cases h
        refine .more rfl nofun ?_
        rw [hleaves, htype]
        simp [leaves, stackLeaves, Pending.leaves, Phase.leaves, Expr.leaves,
          Expr.leavesAll_eq_flatMap, operandType?, leafOf]
      · cases h
        refine .more rfl nofun ?_
        rw [hleaves, htype]
        simp [leaves, stackLeaves, Pending.leaves, Phase.leaves, operandType?, leafOf]
      · cases h
        refine .finished ?_ htest hleaves.symm
        rintro rfl
        cases hop
      · cases h

theorem takes_onName {parts : List τ} (hphase : s.phase = .name parts)
    (h : s.onName parts kind = some progress) : s.Takes kind leaf progress := by
  have htype : s.leafType? kind = operandType? kind := leafType?_of_eq (by rw [hphase]; rfl)
  have hleaves : s.leaves = stackLeaves s.stack ++ partLeaves parts := by
    rw [leaves, hphase]
    rfl
  unfold onName at h
  split at h
  · cases h
    refine .more rfl nofun ?_
    rw [hleaves, htype]
    simp [leaves, Phase.leaves, operandType?, leafOf]
  · cases h
    refine .more rfl nofun ?_
    rw [hleaves, htype]
    simp [leaves, stackLeaves, Pending.leaves, Phase.leaves, partLeaves, operandType?, leafOf]
  · cases h
  · have hdue : s.starDue = false := by
      unfold starDue
      split
      · cases hphase
      · rfl
    exact takes_afterOperand (by rw [hphase]; rfl) (by rw [hphase]; rfl) hdue h

theorem takes_onNameDot {parts : List τ} (hphase : s.phase = .nameDot parts)
    (h : s.onNameDot parts kind leaf = some progress) : s.Takes kind leaf progress := by
  have htype : s.leafType? kind = operandType? kind := leafType?_of_eq (by rw [hphase]; rfl)
  have hleaves : s.leaves = stackLeaves s.stack ++ partLeaves parts := by
    rw [leaves, hphase]
    rfl
  unfold onNameDot at h
  split at h
  · cases h
    refine .more rfl nofun ?_
    rw [hleaves, htype]
    simp [leaves, Phase.leaves, partLeaves, operandType?, leafOf]
  · cases h
    refine .more rfl nofun ?_
    rw [hleaves, htype]
    simp [leaves, Phase.leaves, partLeaves, operandType?, leafOf]
  · next hstack =>
    split at h
    · next hallow =>
      cases h
      obtain ⟨stack, phase, allowStar⟩ := s
      cases hphase
      cases hstack
      exact .starOf rfl hallow hleaves.symm
    · cases h
  · cases h

theorem takes_feed (h : s.feed kind leaf = some progress) : s.Takes kind leaf progress := by
  obtain ⟨stack, phase, allowStar⟩ := s
  cases phase with
  | operand => exact takes_onOperand rfl rfl h
  | firstArgument => exact takes_onFirstArgument rfl h
  | operator left => exact takes_afterOperand rfl rfl (by cases stack <;> rfl) h
  | name parts => exact takes_onName rfl h
  | nameDot parts => exact takes_onNameDot rfl h
  | isTest operand =>
    cases kind with
    | kwNot | kwNull =>
      cases h
      exact .more rfl nofun (List.append_nil _).symm
    | _ => cases h
  | isNotTest operand =>
    cases kind with
    | kwNull =>
      cases h
      exact .more rfl nofun (List.append_nil _).symm
    | _ => cases h

end State

/-! ## Reading a statement -/

namespace Stage

variable {kind : TokenKind} {leaf : τ} {outcome : Outcome τ}

theorem leaves_afterAttribute {head : Head τ} {last : Attribute τ}
    (h : afterAttribute head last kind leaf = some outcome) :
    outcome.leaves = (Stage.attributeEnd head last).leaves ++
      leafOf ((Stage.attributeEnd head last).leafType? kind) leaf := by
  cases kind with
  | comma | kwFrom =>
    cases h
    simp [Outcome.leaves, leaves, Head.leaves, Body.leaves, leafType?, opensClause, operandType?,
      leafOf]
  | _ => cases h

theorem leaves_afterValue {head : Head τ} {value : Expr τ}
    (h : afterValue head value kind leaf = some outcome) :
    outcome.leaves = (Stage.attributeEnd head (.value value none)).leaves ++
      leafOf ((Stage.attributeEnd head (.value value none)).leafType? kind) leaf := by
  unfold afterValue at h
  split at h
  · cases h
    simp [Outcome.leaves, leaves, Attribute.leaves, namingLeaves, leafType?, opensClause, leafOf]
  · cases h
    simp [Outcome.leaves, leaves, Attribute.leaves, namingLeaves, Naming.leaves, leafType?,
      opensClause, operandType?, leafOf]
  · cases h
    simp [Outcome.leaves, leaves, Attribute.leaves, namingLeaves, Naming.leaves, leafType?,
      opensClause, operandType?, leafOf]
  · exact leaves_afterAttribute h

theorem leaves_onAttributeExpr {head : Head τ} {expr : State τ}
    (h : onAttributeExpr head expr kind leaf = some outcome) :
    outcome.leaves = (Stage.attributeExpr head expr).leaves ++
      leafOf ((Stage.attributeExpr head expr).leafType? kind) leaf := by
  unfold onAttributeExpr at h
  split at h
  · next later hfeed =>
    cases h
    obtain ⟨hclause, hstar, hleaves⟩ := State.takes_feed hfeed
    have hplain : ¬(kind = .star ∧ expr.starDue = true) := by
      rintro ⟨hkind, hdue⟩
      rw [hstar hkind] at hdue
      cases hdue
    simp [Outcome.leaves, leaves, leafType?, hclause, hplain, hleaves]
  · -- The expression ends in front of the token, which goes to the attribute.
    next value hfeed =>
    obtain ⟨-, -, -⟩ | ⟨hstar, htest, hleaves⟩ := State.takes_feed hfeed
    have htype : (Stage.attributeExpr head expr).leafType? kind =
        (Stage.attributeEnd head (.value value none)).leafType? kind := by
      simp [leafType?, hstar, State.leafType?_of_eq htest]
    rw [leaves_afterValue h, htype]
    simp [leaves, Attribute.leaves, namingLeaves, hleaves]
  · next parts star hfeed =>
    cases h
    obtain ⟨-, -, -⟩ | ⟨-, -, -⟩ | ⟨hstar, hdue, hleaves⟩ := State.takes_feed hfeed
    subst hstar
    simp [Outcome.leaves, leaves, Attribute.leaves, leafType?, opensClause, hdue, hleaves, leafOf]
  · cases h

theorem leaves_close (body : Body τ) (restriction : Option (Restriction τ)) :
    (body.close restriction).leaves = body.leaves ++ restriction.elim [] Restriction.leaves := rfl

theorem leaves_addSource (body : Body τ) (parts : List τ) (naming : Option (Naming τ)) :
    (addSource body parts naming).leaves =
      body.leaves ++ partLeaves parts ++ namingLeaves naming := by
  simp [addSource, Body.leaves, FromItem.leaves]

theorem leaves_afterSource {body : Body τ} (h : afterSource body kind leaf = some outcome) :
    outcome.leaves = body.leaves ++ leafOf ((Stage.sourceEnd body).leafType? kind) leaf := by
  cases kind with
  | comma | semicolon | eof | kwWhere =>
    cases h
    simp [Outcome.leaves, leaves, leaves_close, State.leaves, State.start, stackLeaves,
      Phase.leaves, leafType?, opensClause, operandType?, leafOf]
  | _ => cases h

theorem leaves_onSourceParts {body : Body τ} {parts : List τ}
    (h : onSourceParts body parts kind leaf = some outcome) :
    outcome.leaves = (Stage.sourceParts body parts).leaves ++
      leafOf ((Stage.sourceParts body parts).leafType? kind) leaf := by
  cases kind with
  | dot =>
    rw [onSourceParts] at h
    split at h
    · cases h
      simp [Outcome.leaves, leaves, leafType?, opensClause, operandType?, leafOf]
    · cases h
  | kwAs =>
    cases h
    rfl
  | ident | quotedIdent =>
    cases h
    simp [Outcome.leaves, leaves, leaves_addSource, namingLeaves, Naming.leaves, leafType?,
      opensClause, operandType?, leafOf]
  | comma | kwWhere | semicolon | eof =>
    rw [onSourceParts] at h
    rw [leaves_afterSource h, leaves_addSource]
    simp [leaves, namingLeaves, leafType?]
  | _ => cases h

theorem leaves_onCondition {body : Body τ} {keyword : τ} {expr : State τ}
    (h : onCondition body keyword expr kind leaf = some outcome) :
    outcome.leaves = (Stage.condition body keyword expr).leaves ++
      leafOf ((Stage.condition body keyword expr).leafType? kind) leaf := by
  unfold onCondition at h
  split at h
  · next later hfeed =>
    cases h
    obtain ⟨hclause, -, hleaves⟩ := State.takes_feed hfeed
    simp [Outcome.leaves, leaves, leafType?, hclause, hleaves]
  · -- The condition ends in front of the token, which closes the statement.
    next test hfeed =>
    obtain ⟨-, -, -⟩ | ⟨-, htest, hleaves⟩ := State.takes_feed hfeed
    split at h
    · cases h
      simp [Outcome.leaves, leaves, leaves_close, Restriction.leaves, leafType?, opensClause,
        State.leafType?_of_eq htest, operandType?, leafOf, hleaves]
    · cases h
      simp [Outcome.leaves, leaves, leaves_close, Restriction.leaves, leafType?, opensClause,
        State.leafType?_of_eq htest, operandType?, leafOf, hleaves]
    · cases h
  · cases h
  · cases h

/-- A token that is consumed adds its leaf at the end, if it is one. -/
theorem leaves_feed {stage : Stage τ} (h : stage.feed kind leaf = some outcome) :
    outcome.leaves = stage.leaves ++ leafOf (stage.leafType? kind) leaf := by
  -- Where a name is expected, a token that can be one is a leaf of it.
  have name_leafType {stage : Stage τ} (hname : kind.isName = true)
      (htype : stage.leafType? kind = if opensClause kind then some .token else operandType? kind) :
      leafOf (stage.leafType? kind) leaf = [(.id, leaf)] := by
    rw [htype]
    cases kind <;> first | rfl | cases hname
  cases stage with
  | start =>
    rw [feed] at h
    split at h
    · next hkind =>
      subst hkind
      cases h
      rfl
    · cases h
  | «attribute» head =>
    rw [feed] at h
    split at h
    · next hkind =>
      subst hkind
      cases h
      rfl
    · -- Anything but a star opens an expression.
      next hkind =>
      have htype : (Stage.attribute head).leafType? kind =
          (Stage.attributeExpr head (State.start true)).leafType? kind := by
        simp [leafType?, hkind, State.leafType?, State.start, Phase.testsNull]
      rw [leaves_onAttributeExpr h, htype]
      simp [leaves, State.leaves, State.start, stackLeaves, Phase.leaves]
  | attributeExpr head expr => exact leaves_onAttributeExpr h
  | attributeName head value keyword =>
    rw [feed] at h
    split at h
    · next hname =>
      cases h
      rw [name_leafType hname rfl]
      simp [Outcome.leaves, leaves, Attribute.leaves, namingLeaves, Naming.leaves]
    · cases h
  | attributeEnd head last => exact leaves_afterAttribute h
  | source body =>
    rw [feed] at h
    split at h
    · next hname =>
      cases h
      rw [name_leafType hname rfl]
      rfl
    · cases h
  | sourceParts body parts => exact leaves_onSourceParts h
  | sourceDot body parts =>
    rw [feed] at h
    split at h
    · next hname =>
      cases h
      rw [name_leafType hname rfl]
      simp [Outcome.leaves, leaves, partLeaves]
    · cases h
  | sourceName body parts keyword =>
    rw [feed] at h
    split at h
    · next hname =>
      cases h
      rw [name_leafType hname rfl]
      simp [Outcome.leaves, leaves, leaves_addSource, namingLeaves, Naming.leaves]
    · cases h
  | sourceEnd body => exact leaves_afterSource h
  | condition body keyword expr => exact leaves_onCondition h
  | closed statement =>
    rw [feed] at h
    split at h
    · next hkind =>
      subst hkind
      cases h
      exact (List.append_nil _).symm
    · cases h

/-- The leaves that tokens are, up to the one that ends the statement. -/
def leavesOf (stage : Stage τ) : List (TokenKind × τ) → List (Leaf τ)
  | [] => []
  | (kind, leaf) :: rest =>
    leafOf (stage.leafType? kind) leaf ++
      match stage.feed kind leaf with
      | some (.more next) => next.leavesOf rest
      | _ => []

/-- What has been read has the leaves of the tokens that were read, in their order. -/
theorem leaves_run {stage : Stage τ} {tokens : List (TokenKind × τ)}
    (h : stage.run tokens = some outcome) :
    outcome.leaves = stage.leaves ++ stage.leavesOf tokens := by
  induction tokens generalizing stage with
  | nil =>
    cases h
    exact (List.append_nil _).symm
  | cons token tokens ih =>
    obtain ⟨kind, leaf⟩ := token
    rw [run] at h
    rw [leavesOf]
    cases hfeed : stage.feed kind leaf with
    | none =>
      rw [hfeed] at h
      cases h
    | some fed =>
      have hleaves := leaves_feed hfeed
      rw [hfeed] at h
      cases fed with
      | more next =>
        rw [ih h, ← List.append_assoc, ← hleaves]
        rfl
      | accepted statement =>
        cases h
        rw [List.append_nil, hleaves]

end Stage

end Grammar

end SelectEngine
