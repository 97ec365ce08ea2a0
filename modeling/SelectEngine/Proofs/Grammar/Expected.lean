import SelectEngine.Grammar.Clause
import SelectEngine.Proofs.Grammar.Form

/-!
# What the reader of statements expects

Each state of the reader expects certain forms (`State.expects`, `Stage.expects`). A token leads to
a state that expects exactly what may stand behind the token, and is refused if nothing may
(`State.spells_expects`, `Stage.spells_expects`). So the reader accepts the sentences of the
grammar, and refuses a token as soon as no sentence goes on with it.
-/

set_option autoImplicit false

namespace SelectEngine.Grammar

variable {τ : Type} {behind behindStar : List Form} {kind : TokenKind} {w : List TokenKind}

/-! ## Expressions -/

/-- The forms that end what is open, innermost first, and those behind the expression. Operators
leave nothing to end. -/
def opened : List (Pending τ) → List Form → List Form
  | [], behind => behind
  | .binary _ _ :: stack, behind | .leading _ :: stack, behind => opened stack behind
  | .paren :: stack, behind => .one .rparen :: .many link :: opened stack behind
  | .call _ _ :: stack, behind =>
    .many commaExpr :: .one .rparen :: .many link :: opened stack behind

namespace State

/-- The name that is read may turn out to be the name of `name.*`. -/
def mayStar (s : State τ) : Bool := s.allowStar && s.stack.isEmpty

/-- The forms, or the others where a star is allowed. -/
def orStar (s : State τ) (forms starForms : List Form) : List Form :=
  [.alt (.seq forms :: if s.mayStar then [.seq starForms] else [])]

/-- What is expected behind an operand. -/
def rest (s : State τ) (behind : List Form) : List Form := .many link :: opened s.stack behind

/-- What is expected where an operand is due. -/
def dueOperand (s : State τ) (behind behindStar : List Form) : List Form :=
  s.orStar (.phrase .operand :: s.rest behind)
    (name :: .many dotName :: .one .dot :: .one .star :: behindStar)

/-- What is expected behind a name, which may go on; a name of one part may be that of a
function. -/
def behindName (s : State τ) (single : Bool) (behind behindStar : List Form) : List Form :=
  s.orStar
    [.alt (.seq (.many dotName :: s.rest behind) ::
      if single then [.seq (arguments :: s.rest behind)] else [])]
    (.many dotName :: .one .dot :: .one .star :: behindStar)

/-- What is expected behind the point behind some parts of a name. -/
def duePart (s : State τ) (parts : Nat) (behind behindStar : List Form) : List Form :=
  s.orStar (name :: s.behindName (parts = 0) behind behindStar) (.one .star :: behindStar)

/-- What is expected behind some parts of a name. -/
def behindParts (s : State τ) (parts : Nat) (behind behindStar : List Form) : List Form :=
  [.alt (.seq (s.rest behind) :: .seq (.one .dot :: s.duePart parts behind behindStar) ::
    if parts = 1 then [.seq (arguments :: s.rest behind)] else [])]

/-- What the reader of an expression expects, where `behind` stands behind the expression, or
`behindStar` behind `name.*`. -/
def expects (s : State τ) (behind behindStar : List Form) : List Form :=
  match s.phase with
  | .operand => s.dueOperand behind behindStar
  | .firstArgument =>
    match s.stack with
    | .call _ _ :: stack =>
      .opt (.seq [.phrase .expr, .many commaExpr]) :: .one .rparen :: .many link ::
        opened stack behind
    | _ => s.dueOperand behind behindStar
  | .operator _ => s.rest behind
  | .name parts => s.behindParts parts.length behind behindStar
  | .nameDot parts => s.duePart parts.length behind behindStar
  | .isTest _ => .opt (.one .kwNot) :: .one .kwNull :: s.rest behind
  | .isNotTest _ => .one .kwNull :: s.rest behind

end State

/-- What is expected behind a token of a kind, where the reader of an expression ends it or not. -/
def Progress.Leaves (behind behindStar : List Form) (kind : TokenKind) (w : List TokenKind) :
    Option (Progress τ) → Prop
  | some (.more s) => Spells (s.expects behind behindStar) w
  | some (.finished _) => Spells behind (kind :: w)
  | some (.starOf _ _) => Spells behindStar w
  | none => False

/-- The kinds that go on with an operand. -/
def onwardKinds : List TokenKind := .kwIs :: .dot :: .lparen :: binaryKinds

/-- The forms start with nothing that goes on with an operand. -/
def Ends (forms : List Form) : Prop := ∀ kind w, Spells forms (kind :: w) → kind ∉ onwardKinds

theorem mem_binaryKinds : kind ∈ binaryKinds ↔ kind.binary?.isSome = true := by
  cases kind <;> decide

theorem Ends.opened (h : Ends behind) : ∀ stack : List (Pending τ), Ends (opened stack behind)
  | [] => h
  | .binary _ _ :: stack | .leading _ :: stack => Ends.opened h stack
  | .paren :: stack => by
    intro kind w hw
    obtain ⟨rfl, -⟩ := spells_one_cons.mp hw
    decide
  | .call _ _ :: stack => by
    intro kind w hw
    rcases spells_commaExprs_cons.mp hw with hw | ⟨rfl, -⟩
    · obtain ⟨rfl, -⟩ := spells_one_cons.mp hw
      decide
    · decide

/-- Applying open operators leaves the same to end. -/
theorem opened_reduce (least : Nat) (operand : Expr τ) (stack : List (Pending τ)) :
    opened (reduce least operand stack).2 behind = opened stack behind := by
  fun_induction reduce least operand stack with
  | case1 operand op left stack hle ih => rw [ih, opened]
  | case2 operand op left stack hle => rfl
  | case3 operand op stack hle ih => rw [ih, opened]
  | case4 operand op stack hle => rfl
  | case5 operand stack => rfl

namespace State

variable (s : State τ)

@[simp] theorem spells_orStar {forms starForms : List Form} :
    Spells (s.orStar forms starForms) w ↔
      Spells forms w ∨ s.mayStar = true ∧ Spells starForms w := by
  cases hs : s.mayStar <;> simp [orStar, hs]

@[simp] theorem mayStar_cons {p : Pending τ} {stack : List (Pending τ)} {phase : Phase τ}
    {allowStar : Bool} : (⟨p :: stack, phase, allowStar⟩ : State τ).mayStar = false := by
  simp [mayStar]

theorem spells_behindName {single : Bool} :
    Spells (s.behindName single behind behindStar) w ↔
      Spells (.many dotName :: s.rest behind) w ∨
      single = true ∧ Spells (arguments :: s.rest behind) w ∨
      s.mayStar = true ∧ Spells (.many dotName :: .one .dot :: .one .star :: behindStar) w := by
  cases single <;> simp [behindName, or_assoc]

theorem spells_behindParts {parts : Nat} :
    Spells (s.behindParts parts behind behindStar) w ↔
      Spells (s.rest behind) w ∨
      Spells (.one .dot :: s.duePart parts behind behindStar) w ∨
      parts = 1 ∧ Spells (arguments :: s.rest behind) w := by
  by_cases hparts : parts = 1 <;> simp [behindParts, hparts]

/-- A name that goes on has a point and then a part or, where that is allowed, a star. -/
theorem spells_behindParts_succ {parts : Nat} :
    Spells (s.behindParts (parts + 1) behind behindStar) w ↔
      Spells (s.behindName (parts = 0) behind behindStar) w := by
  rw [spells_behindParts, spells_behindName]
  cases w with
  | nil => simp [spells_dotNames_nil]
  | cons kind w =>
    have hpart : Spells (s.duePart (parts + 1) behind behindStar) w ↔
        Spells (name :: .many dotName :: s.rest behind) w ∨ s.mayStar = true ∧
          (Spells (.one .star :: behindStar) w ∨
            Spells (name :: .many dotName :: .one .dot :: .one .star :: behindStar) w) := by
      rw [duePart, spells_orStar]
      cases w with
      | nil => simp
      | cons next w => simp [spells_behindName]; grind
    -- Behind the point stands a part of the name or the star, on either side.
    rw [spells_one_cons, hpart, spells_dotNames_cons, spells_dotNames_cons]
    simp
    grind

/-- A token where an operand is due. -/
theorem spells_dueOperand (leaf : τ) :
    Spells (s.dueOperand behind behindStar) (kind :: w) ↔
      Progress.Leaves behind behindStar kind w (s.onOperand kind leaf) := by
  rw [dueOperand, spells_orStar, spells_operand_cons, spells_name_cons]
  cases kind with
  | number | string | kwNull | question =>
    simp [onOperand, Progress.Leaves, leadingKinds, literalKinds, TokenKind.isName, expects, rest]
  | ident | quotedIdent =>
    -- A name may go on, be that of a function, or turn out to be that of a star.
    have hname : Spells (s.behindParts 1 behind behindStar) w ↔ _ := s.spells_behindParts_succ
    rw [spells_behindName] at hname
    simp only [onOperand, Progress.Leaves, expects]
    refine Iff.trans ?_ hname.symm
    simp [leadingKinds, literalKinds, TokenKind.isName, or_assoc]
  | lparen =>
    simp [onOperand, Progress.Leaves, leadingKinds, literalKinds, TokenKind.isName, expects,
      dueOperand, rest, opened, spells_expr]
  | minus | plus | kwNot =>
    simp [onOperand, leading?, Progress.Leaves, leadingKinds, literalKinds, TokenKind.isName,
      expects, dueOperand, rest, opened]
  | _ =>
    simp [onOperand, leading?, Progress.Leaves, leadingKinds, literalKinds, TokenKind.isName]

/-- With no operator left open, a group is innermost. -/
theorem reduce_zero_top {operand e : Expr τ} {p : Pending τ}
    {stack rest : List (Pending τ)} (h : reduce 0 operand stack = (e, p :: rest)) :
    p = .paren ∨ ∃ function args, p = .call function args := by
  fun_induction reduce 0 operand stack with
  | case1 operand op left stack hle ih => exact ih h
  | case2 operand op left stack hle => exact absurd (Nat.zero_le _) hle
  | case3 operand op stack hle ih => exact ih h
  | case4 operand op stack hle => exact absurd (Nat.zero_le _) hle
  | case5 operand stack hbinary hleading =>
    cases h
    cases p with
    | binary op left => exact absurd rfl (hbinary op left rest)
    | leading op => exact absurd rfl (hleading op rest)
    | paren => exact Or.inl rfl
    | call function args => exact Or.inr ⟨function, args, rfl⟩

/-- A token behind an operand. -/
theorem spells_rest (hends : Ends behind) (left : Expr τ) :
    Spells (s.rest behind) (kind :: w) ↔
      Progress.Leaves behind behindStar kind w (s.afterOperand left kind) := by
  have hopened := hends.opened s.stack
  rw [rest, spells_links_cons, mem_binaryKinds]
  unfold afterOperand
  cases hop : kind.binary? with
  | some op =>
    have hkind : kind ∈ binaryKinds := mem_binaryKinds.mpr (by rw [hop]; rfl)
    -- What is open does not start with an operator, so only a link can spell the token.
    have hfirst : ¬Spells (opened s.stack behind) (kind :: w) := fun hw =>
      hopened kind w hw (by simp [onwardKinds, hkind])
    have his : kind ≠ .kwIs := by
      rintro rfl
      cases hop
    simp [Progress.Leaves, expects, dueOperand, hfirst, his, rest, opened, opened_reduce]
  | none =>
    by_cases his : kind = .kwIs
    · subst his
      have hfirst : ¬Spells (opened s.stack behind) (.kwIs :: w) := fun hw =>
        hopened .kwIs w hw (by decide)
      simp [Progress.Leaves, expects, hfirst, rest, opened_reduce]
    · -- All operators are applied, so the token closes the innermost group or ends the expression.
      have hbehind : opened (reduce 0 left s.stack).2 behind = opened s.stack behind :=
        opened_reduce 0 left s.stack
      simp only [Option.isSome_none, Bool.false_eq_true, his, if_false, false_and, or_false]
      rw [← hbehind]
      generalize hreduced : reduce 0 left s.stack = reduced
      obtain ⟨operand, _ | ⟨p, stack⟩⟩ := reduced
      · rfl
      · rcases reduce_zero_top hreduced with rfl | ⟨function, args, rfl⟩
        · cases kind with
          | rparen => simp [opened, Progress.Leaves, expects, rest]
          | _ => simp [opened, Progress.Leaves]
        · cases kind with
          | rparen => simp [opened, Progress.Leaves, expects, rest, spells_commaExprs_cons]
          | comma =>
            simp [opened, Progress.Leaves, expects, rest, spells_commaExprs_cons, dueOperand,
              spells_expr]
          | _ => simp [opened, Progress.Leaves, spells_commaExprs_cons]

/-- Behind an operand stands no point and no opening parenthesis. -/
theorem not_spells_rest (hends : Ends behind) (hkind : kind = .dot ∨ kind = .lparen) :
    ¬Spells (s.rest behind) (kind :: w) := by
  intro h
  have hopened := hends.opened s.stack
  rw [rest, spells_links_cons] at h
  rcases hkind with rfl | rfl <;> rcases h with h | ⟨h, -⟩ | ⟨h, -⟩
  · exact hopened _ _ h (by decide)
  · exact absurd h (by decide)
  · cases h
  · exact hopened _ _ h (by decide)
  · exact absurd h (by decide)
  · cases h

/-- A token behind some parts of a name. -/
theorem spells_parts (hends : Ends behind) (parts : List τ) :
    Spells (s.behindParts parts.length behind behindStar) (kind :: w) ↔
      Progress.Leaves behind behindStar kind w (s.onName parts kind) := by
  rw [spells_behindParts, spells_one_cons, spells_arguments_cons]
  have hoperand : Spells (s.rest behind) (kind :: w) ↔
      Progress.Leaves behind behindStar kind w (s.afterOperand (.name parts) kind) :=
    s.spells_rest hends (.name parts)
  cases kind with
  | dot =>
    -- No operand is followed by a point, so the name goes on.
    have hrest := s.not_spells_rest (w := w) hends (Or.inl rfl)
    simp only [hrest, true_and, false_and, and_false, or_false, false_or, reduceCtorEq]
    rfl
  | lparen =>
    -- Only a name of one part can be that of a function.
    have hrest := s.not_spells_rest (w := w) hends (Or.inr rfl)
    rcases parts with _ | ⟨function, _ | ⟨part, parts⟩⟩
    · simp [hrest, onName, Progress.Leaves]
    · simp only [hrest, List.length_singleton, true_and, false_and, false_or, reduceCtorEq]
      rfl
    · simp [hrest, onName, Progress.Leaves]
  | _ => simpa [onName] using hoperand

/-- A token behind the point of a name. -/
theorem spells_duePart (parts : List τ) (leaf : τ) :
    Spells (s.duePart parts.length behind behindStar) (kind :: w) ↔
      Progress.Leaves behind behindStar kind w (s.onNameDot parts kind leaf) := by
  rw [duePart, spells_orStar, spells_name_cons, spells_one_cons]
  cases kind with
  | ident | quotedIdent =>
    have hname : Spells (s.behindParts (parts.length + 1) behind behindStar) w ↔ _ :=
      s.spells_behindParts_succ
    have hparts : (parts ++ [leaf]).length = parts.length + 1 := List.length_append
    simp only [onNameDot, Progress.Leaves, expects, TokenKind.isName, hparts, true_and, false_and,
      and_false, or_false, reduceCtorEq]
    exact hname.symm
  | star =>
    obtain ⟨_ | ⟨p, stack⟩, phase, allowStar⟩ := s
    · cases allowStar <;> simp [onNameDot, Progress.Leaves, TokenKind.isName, mayStar]
    · simp [onNameDot, Progress.Leaves, TokenKind.isName]
  | _ => simp [onNameDot, Progress.Leaves, TokenKind.isName]

/-- No expression starts with a closing parenthesis. -/
theorem not_spells_expr_rparen {rest : List Form} :
    ¬Spells (.phrase .expr :: rest) (.rparen :: w) := by
  rw [spells_expr, spells_operand_cons]
  simp [leadingKinds, literalKinds, TokenKind.isName]

/-- A token behind the parenthesis that opens a call. -/
theorem spells_firstArgument (hphase : s.phase = .firstArgument) (leaf : τ) :
    Spells (s.expects behind behindStar) (kind :: w) ↔
      Progress.Leaves behind behindStar kind w (s.onFirstArgument kind leaf) := by
  have hoperand : Spells (s.dueOperand behind behindStar) (kind :: w) ↔
      Progress.Leaves behind behindStar kind w (s.onOperand kind leaf) := s.spells_dueOperand leaf
  obtain ⟨stack, phase, allowStar⟩ := s
  obtain rfl : phase = .firstArgument := hphase
  rcases stack with _ | ⟨p, stack⟩
  · cases kind <;> exact hoperand
  · cases p with
    | call function args =>
      rw [dueOperand, spells_orStar, mayStar_cons, rest, opened, ← spells_expr] at hoperand
      simp only [expects, spells_opt, spells_seq, spells_one_cons, List.cons_append,
        List.nil_append]
      cases kind with
      | rparen => simp [not_spells_expr_rparen, onFirstArgument, Progress.Leaves, expects, rest]
      | _ => simpa [onFirstArgument] using hoperand
    | binary | leading | paren => cases kind <;> exact hoperand

/-- The reader of an expression expects what it goes on with. -/
theorem spells_expects (hends : Ends behind) (leaf : τ) :
    Spells (s.expects behind behindStar) (kind :: w) ↔
      Progress.Leaves behind behindStar kind w (s.feed kind leaf) := by
  obtain ⟨stack, phase, allowStar⟩ := s
  cases phase with
  | operand => exact spells_dueOperand _ leaf
  | firstArgument => exact spells_firstArgument _ rfl leaf
  | operator left => exact spells_rest _ hends left
  | name parts => exact spells_parts _ hends parts
  | nameDot parts => exact spells_duePart _ parts leaf
  | isTest operand => cases kind <;> simp [expects, feed, Progress.Leaves, rest]
  | isNotTest operand => cases kind <;> simp [expects, feed, Progress.Leaves, rest]

end State

/-! ## Statements -/

/-- The end of a statement. -/
def behindCondition : List Form := [.opt (.one .semicolon), .one .eof]

/-- What stands behind a source. -/
def behindSource : List Form :=
  .many (.seq [.one .comma, .phrase .source]) ::
    .opt (.seq [.one .kwWhere, .phrase .expr]) :: behindCondition

/-- What stands behind an attribute. -/
def behindAttribute : List Form :=
  .many (.seq [.one .comma, .phrase .attribute]) :: .one .kwFrom :: .phrase .source :: behindSource

/-- At most `n` more parts of the name of a source. -/
def moreParts : Nat → List Form
  | 0 => []
  | n + 1 => [.opt (.seq (.one .dot :: name :: moreParts n))]

/-- What stands behind `n` parts of the name of a source. -/
def behindPart (n : Nat) : List Form := moreParts (3 - n) ++ .opt naming :: behindSource

/-- What no token starts. -/
def nothing : List Form := [.token []]

namespace Stage

/-- What the reader of statements expects. -/
def expects : Stage τ → List Form
  | .start => [.phrase .sentence]
  | .attribute _ => .phrase .attribute :: behindAttribute
  | .attributeExpr _ expr => expr.expects (.opt naming :: behindAttribute) behindAttribute
  | .attributeName _ _ _ => name :: behindAttribute
  | .attributeEnd _ _ => behindAttribute
  | .source _ => .phrase .source :: behindSource
  | .sourceParts _ parts => behindPart parts.length
  | .sourceDot _ parts => name :: behindPart (parts.length + 1)
  | .sourceName _ _ _ => name :: behindSource
  | .sourceEnd _ => behindSource
  | .condition _ _ expr => expr.expects behindCondition nothing
  | .closed _ => [.one .eof]

end Stage

/-- What is expected behind a token that did this to the reader. -/
def Outcome.Leaves (w : List TokenKind) : Option (Outcome τ) → Prop
  | some (.more stage) => Spells stage.expects w
  | some (.accepted _) => Spells [] w
  | none => False

theorem spells_behindAttribute_cons : Spells behindAttribute (kind :: w) ↔
    kind = .kwFrom ∧ Spells (.phrase .source :: behindSource) w ∨
      kind = .comma ∧ Spells (.phrase .attribute :: behindAttribute) w := by
  rw [behindAttribute, spells_many]
  simp

theorem spells_behindSource_cons : Spells behindSource (kind :: w) ↔
    kind = .eof ∧ Spells [] w ∨ kind = .semicolon ∧ Spells [.one .eof] w ∨
      kind = .kwWhere ∧ Spells (.phrase .expr :: behindCondition) w ∨
      kind = .comma ∧ Spells (.phrase .source :: behindSource) w := by
  rw [behindSource, spells_many, behindCondition]
  simp [or_assoc]

/-- A name of fewer than three parts may go on. -/
theorem spells_behindPart_cons {n : Nat} : Spells (behindPart n) (kind :: w) ↔
    Spells (.opt naming :: behindSource) (kind :: w) ∨
      kind = .dot ∧ n < 3 ∧ Spells (name :: behindPart (n + 1)) w := by
  by_cases hn : n < 3
  · have hmore : 3 - n = 3 - (n + 1) + 1 := by omega
    rw [behindPart, hmore, moreParts, behindPart, List.singleton_append, spells_opt, spells_seq]
    simp [hn]
  · have hmore : 3 - n = 0 := by omega
    rw [behindPart, hmore, moreParts]
    simp [hn]

theorem spells_source_cons : Spells (.phrase .source :: behindSource) (kind :: w) ↔
    kind.isName = true ∧ Spells (behindPart 1) w := by
  rw [spells_phrase, Phrase.form, spells_seq, List.cons_append, spells_name_cons]
  rfl

theorem spells_attribute_cons : Spells (.phrase .attribute :: behindAttribute) (kind :: w) ↔
    kind = .star ∧ Spells behindAttribute w ∨
      Spells (name :: .many dotName :: .one .dot :: .one .star :: behindAttribute) (kind :: w) ∨
      Spells (.phrase .expr :: .opt naming :: behindAttribute) (kind :: w) := by
  rw [spells_phrase, Phrase.form, spells_alt]
  simp

theorem ends_naming : Ends (.opt naming :: behindAttribute) := by
  intro kind w h
  rw [spells_opt, spells_naming_cons, spells_behindAttribute_cons] at h
  cases kind <;> first | decide | simp [TokenKind.isName] at h

theorem ends_behindCondition : Ends behindCondition := by
  intro kind w h
  rw [behindCondition, spells_opt, spells_one_cons, spells_one_cons] at h
  rcases h with ⟨rfl, -⟩ | ⟨rfl, -⟩ <;> decide

namespace Stage

theorem spells_afterAttribute (head : Head τ) (last : Attribute τ) (leaf : τ) :
    Spells behindAttribute (kind :: w) ↔
      Outcome.Leaves w (afterAttribute head last kind leaf) := by
  rw [spells_behindAttribute_cons]
  cases kind <;> simp [afterAttribute, Outcome.Leaves, expects]

theorem spells_afterValue (head : Head τ) (value : Expr τ) (leaf : τ) :
    Spells (.opt naming :: behindAttribute) (kind :: w) ↔
      Outcome.Leaves w (afterValue head value kind leaf) := by
  rw [spells_opt, spells_naming_cons, spells_afterAttribute head (.value value none) leaf]
  cases kind <;> simp [afterValue, afterAttribute, Outcome.Leaves, expects, TokenKind.isName]

theorem spells_onAttributeExpr (head : Head τ) (expr : State τ) (leaf : τ) :
    Spells (expr.expects (.opt naming :: behindAttribute) behindAttribute) (kind :: w) ↔
      Outcome.Leaves w (onAttributeExpr head expr kind leaf) := by
  rw [expr.spells_expects ends_naming leaf, onAttributeExpr]
  cases expr.feed kind leaf with
  | none => rfl
  | some progress =>
    cases progress with
    | more expr => rfl
    | finished value => exact spells_afterValue head value leaf
    | starOf parts star => rfl

theorem spells_afterSource (body : Body τ) (leaf : τ) :
    Spells behindSource (kind :: w) ↔ Outcome.Leaves w (afterSource body kind leaf) := by
  rw [spells_behindSource_cons]
  cases kind with
  | kwWhere =>
    simp [afterSource, Outcome.Leaves, expects, State.start, State.expects, State.dueOperand,
      State.mayStar, State.rest, opened, spells_expr]
  | _ => simp [afterSource, Outcome.Leaves, expects]

theorem spells_onSourceParts (body : Body τ) (parts : List τ) (leaf : τ) :
    Spells (behindPart parts.length) (kind :: w) ↔
      Outcome.Leaves w (onSourceParts body parts kind leaf) := by
  rw [spells_behindPart_cons, spells_opt, spells_naming_cons,
    spells_afterSource (addSource body parts none) leaf]
  cases kind with
  | dot =>
    by_cases hlength : parts.length < 3 <;>
      simp [onSourceParts, afterSource, Outcome.Leaves, expects, hlength, TokenKind.isName]
  | _ => simp [onSourceParts, afterSource, Outcome.Leaves, expects, TokenKind.isName]

theorem spells_onCondition (body : Body τ) (keyword : τ) (expr : State τ) (leaf : τ) :
    Spells (expr.expects behindCondition nothing) (kind :: w) ↔
      Outcome.Leaves w (onCondition body keyword expr kind leaf) := by
  rw [expr.spells_expects ends_behindCondition leaf, onCondition]
  cases expr.feed kind leaf with
  | none => rfl
  | some progress =>
    cases progress with
    | more expr => rfl
    | finished value =>
      cases kind <;> simp [Progress.Leaves, Outcome.Leaves, behindCondition, expects]
    | starOf parts star => cases w <;> simp [Progress.Leaves, Outcome.Leaves, nothing]

/-- The reader of statements expects what it goes on with. -/
theorem spells_expects (stage : Stage τ) (leaf : τ) :
    Spells stage.expects (kind :: w) ↔ Outcome.Leaves w (stage.feed kind leaf) := by
  cases stage with
  | start =>
    rw [expects, spells_phrase, Phrase.form, spells_seq]
    cases kind with
    | kwSelect =>
      simp [feed, Outcome.Leaves, expects, behindAttribute, behindSource, behindCondition]
    | _ => simp [feed, Outcome.Leaves]
  | «attribute» head =>
    -- A star is an attribute of its own; any other token starts an expression or the name of one.
    have hstart : Spells ((State.start true : State τ).expects (.opt naming :: behindAttribute)
        behindAttribute) (kind :: w) ↔
        Spells (.phrase .expr :: .opt naming :: behindAttribute) (kind :: w) ∨
        Spells (name :: .many dotName :: .one .dot :: .one .star :: behindAttribute)
          (kind :: w) := by
      simp [State.start, State.expects, State.dueOperand, State.rest, State.mayStar, opened,
        spells_expr]
    rw [expects, spells_attribute_cons, or_comm (b := Spells (.phrase .expr :: _) _), ← hstart,
      spells_onAttributeExpr head (State.start true) leaf, feed]
    cases kind with
    | star =>
      have hnone : onAttributeExpr head (State.start true) .star leaf = none := rfl
      simp [hnone, Outcome.Leaves, expects]
    | _ => simp
  | attributeExpr head expr => exact spells_onAttributeExpr head expr leaf
  | attributeEnd head last => exact spells_afterAttribute head last leaf
  | source body =>
    rw [expects, spells_source_cons]
    cases kind <;> simp [feed, Outcome.Leaves, expects, TokenKind.isName]
  | sourceParts body parts => exact spells_onSourceParts body parts leaf
  | sourceEnd body => exact spells_afterSource body leaf
  | condition body keyword expr => exact spells_onCondition body keyword expr leaf
  | sourceDot body parts => cases kind <;> simp [expects, feed, Outcome.Leaves, TokenKind.isName]
  | attributeName | sourceName | closed =>
    cases kind <;> simp [expects, feed, Outcome.Leaves, TokenKind.isName]

end Stage

/-! ## Every state expects something -/

theorem exists_spells_opened (h : ∃ w, Spells behind w) :
    ∀ stack : List (Pending τ), ∃ w, Spells (opened stack behind) w
  | [] => h
  | .binary _ _ :: stack | .leading _ :: stack => exists_spells_opened h stack
  | .paren :: stack => by
    obtain ⟨w, hw⟩ := exists_spells_opened h stack
    exact ⟨.rparen :: w, spells_one_cons.mpr ⟨rfl, .stop hw⟩⟩
  | .call _ _ :: stack => by
    obtain ⟨w, hw⟩ := exists_spells_opened h stack
    exact ⟨.rparen :: w, .stop (spells_one_cons.mpr ⟨rfl, .stop hw⟩)⟩

theorem State.exists_spells (s : State τ) (h : ∃ w, Spells behind w) :
    ∃ w, Spells (s.expects behind behindStar) w := by
  obtain ⟨w, hw⟩ := exists_spells_opened h s.stack
  have hrest : Spells (s.rest behind) w := .stop hw
  have hoperand : Spells (s.dueOperand behind behindStar) (.number :: w) :=
    (s.spells_orStar).mpr (Or.inl (spells_operand_cons.mpr (Or.inr (Or.inl ⟨by decide, hrest⟩))))
  obtain ⟨stack, phase, allowStar⟩ := s
  cases phase with
  | operand => exact ⟨_, hoperand⟩
  | firstArgument =>
    rcases stack with _ | ⟨p, stack⟩
    · exact ⟨_, hoperand⟩
    · cases p with
      | call function args =>
        obtain ⟨w, hw⟩ := exists_spells_opened h stack
        exact ⟨.rparen :: w, .skip (spells_one_cons.mpr ⟨rfl, .stop hw⟩)⟩
      | binary | leading | paren => exact ⟨_, hoperand⟩
  | operator left => exact ⟨w, hrest⟩
  | name parts => exact ⟨w, (State.spells_behindParts _).mpr (Or.inl hrest)⟩
  | nameDot parts =>
    have hname : Spells (State.behindName _ (parts.length = 0) behind behindStar) w :=
      (State.spells_behindName _).mpr (Or.inl (.stop hrest))
    exact ⟨.ident :: w, (State.spells_orStar _).mpr (Or.inl (spells_name_cons.mpr ⟨rfl, hname⟩))⟩
  | isTest operand => exact ⟨.kwNull :: w, .skip (spells_one_cons.mpr ⟨rfl, hrest⟩)⟩
  | isNotTest operand => exact ⟨.kwNull :: w, spells_one_cons.mpr ⟨rfl, hrest⟩⟩

theorem spells_behindCondition : Spells behindCondition [.eof] := .skip (.token (by decide) .nil)

theorem spells_behindSource : Spells behindSource [.eof] := .stop (.skip spells_behindCondition)

theorem spells_behindPart (n : Nat) : Spells (behindPart n) [.eof] :=
  spells_behindPart_cons.mpr (Or.inl (.skip spells_behindSource))

theorem spells_source : Spells (.phrase .source :: behindSource) [.ident, .eof] :=
  spells_source_cons.mpr ⟨rfl, spells_behindPart 1⟩

theorem spells_behindAttribute : Spells behindAttribute [.kwFrom, .ident, .eof] :=
  spells_behindAttribute_cons.mpr (Or.inl ⟨rfl, spells_source⟩)

theorem spells_attribute :
    Spells (.phrase .attribute :: behindAttribute) [.star, .kwFrom, .ident, .eof] :=
  spells_attribute_cons.mpr (Or.inl ⟨rfl, spells_behindAttribute⟩)

/-- Some tokens complete the statement. -/
theorem Stage.exists_spells (stage : Stage τ) : ∃ w, Spells stage.expects w := by
  have hname : ∀ {rest : List Form} {w : List TokenKind}, Spells rest w →
      Spells (name :: rest) (.ident :: w) := fun h => spells_name_cons.mpr ⟨rfl, h⟩
  cases stage with
  | start => exact ⟨_, .phrase (.seq (spells_one_cons.mpr ⟨rfl, spells_attribute⟩))⟩
  | «attribute» head => exact ⟨_, spells_attribute⟩
  | attributeExpr head expr => exact expr.exists_spells ⟨_, .skip spells_behindAttribute⟩
  | attributeName head value keyword => exact ⟨_, hname spells_behindAttribute⟩
  | attributeEnd head last => exact ⟨_, spells_behindAttribute⟩
  | source body => exact ⟨_, spells_source⟩
  | sourceParts body parts => exact ⟨_, spells_behindPart _⟩
  | sourceDot body parts => exact ⟨_, hname (spells_behindPart _)⟩
  | sourceName body parts keyword => exact ⟨_, hname spells_behindSource⟩
  | sourceEnd body => exact ⟨_, spells_behindSource⟩
  | condition body keyword expr => exact expr.exists_spells ⟨_, spells_behindCondition⟩
  | closed statement => exact ⟨_, spells_one_cons.mpr ⟨rfl, .nil⟩⟩

end SelectEngine.Grammar
