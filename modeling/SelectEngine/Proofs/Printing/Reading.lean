import SelectEngine.Proofs.Grammar.Reading
import SelectEngine.Proofs.Printing.Lexemes

/-!
# Reading printed statements

The tokens of a printed expression are read as the expression (`Expr.reads_lexemes`). What the
reader has on its stack behind an expression need not be what the expression says, since operators
are applied late; what counts is that applying the operators gives the same (`Behind`). The tokens
of a printed statement are read as the statement (`Statement.run_lexemes`).
-/

set_option autoImplicit false

namespace SelectEngine

open Grammar

namespace Grammar

variable {τ : Type}

/-! ## What the reader has behind an expression -/

/-- The operator on top of the stack, if it is not a group that is. -/
def top? : List (Pending τ) → Option Operator
  | .binary op _ :: _ | .leading op :: _ => some op
  | _ => none

/-- Operators that bind more tightly than the one on top of the stack leave the stack as it is. -/
theorem reduce_of_top {least : Nat} {stack : List (Pending τ)} (e : Expr τ)
    (h : ∀ op ∈ top? stack, op.strength < least) : reduce least e stack = (e, stack) := by
  rcases stack with _ | ⟨p, stack⟩
  · rfl
  · cases p with
    | binary op left => simp [reduce, Nat.not_le.mpr (h op rfl)]
    | leading op => simp [reduce, Nat.not_le.mpr (h op rfl)]
    | paren | call => rfl

/-- The reader stands behind an operand on a stack: whatever operator of at most the given strength
comes next, what is then applied is what would be applied if the operand were `e`. -/
structure Behind (strength : Nat) (stack : List (Pending τ)) (e : Expr τ) (s : State τ)
    (operand : Expr τ) : Prop where
  phase : s.phase = .operator operand ∨ ∃ parts, operand = .name parts ∧ s.phase = .name parts
  reduces : ∀ least ≤ strength, reduce least operand s.stack = reduce least e stack

namespace Behind

variable {strength : Nat} {stack : List (Pending τ)} {e operand : Expr τ} {s : State τ}

theorem mono (h : Behind strength stack e s operand) {n : Nat} (hn : n ≤ strength) :
    Behind n stack e s operand :=
  ⟨h.phase, fun least hleast => h.reduces least (Nat.le_trans hleast hn)⟩

/-- Behind an expression that stands on the stack itself. -/
theorem of_operator (strength : Nat) (stack : List (Pending τ)) (e : Expr τ) (allowStar : Bool) :
    Behind strength stack e ⟨stack, .operator e, allowStar⟩ e :=
  ⟨Or.inl rfl, fun _ _ => rfl⟩

/-- A token other than those that continue a name is one behind an operand. -/
theorem feed (h : Behind strength stack e s operand) {kind : TokenKind} (leaf : τ)
    (hdot : kind ≠ .dot) (hparen : kind ≠ .lparen) :
    s.feed kind leaf = s.afterOperand operand kind := by
  obtain ⟨stack', phase, allowStar⟩ := s
  rcases h.phase with hphase | ⟨parts, rfl, hphase⟩
  · cases hphase
    rfl
  · cases hphase
    unfold State.feed
    dsimp only
    unfold State.onName
    split
    · exact absurd rfl hdot
    · exact absurd rfl hparen
    · exact absurd rfl hparen
    · rfl

/-- A binary operator takes the expression as its left operand if it binds more tightly than the
operator on top of the stack. -/
theorem feed_binary (h : Behind strength stack e s operand) {kind : TokenKind} {op : Operator}
    (hkind : kind.binary? = some op) (leaf : τ) (hop : op.strength ≤ strength)
    (htop : ∀ outer ∈ top? stack, outer.strength < op.strength) :
    s.feed kind leaf = some (.more ⟨.binary op e :: stack, .operand, s.allowStar⟩) := by
  have hdot : kind ≠ .dot := by rintro rfl; cases hkind
  have hparen : kind ≠ .lparen := by rintro rfl; cases hkind
  have hreduce : reduce op.strength operand s.stack = (e, stack) :=
    (h.reduces _ hop).trans (reduce_of_top e htop)
  rw [h.feed leaf hdot hparen]
  unfold State.afterOperand
  simp only [hkind, hreduce]

/-- `IS` takes the expression as its operand under the same condition. -/
theorem feed_is (h : Behind strength stack e s operand) (leaf : τ) (hop : 4 ≤ strength)
    (htop : ∀ outer ∈ top? stack, outer.strength < 4) :
    s.feed .kwIs leaf = some (.more ⟨stack, .isTest e, s.allowStar⟩) := by
  rw [h.feed leaf (by decide) (by decide)]
  have hreduce : reduce Operator.isNull.strength operand s.stack = (e, stack) :=
    (h.reduces 4 hop).trans (reduce_of_top e htop)
  unfold State.afterOperand
  simp only [TokenKind.binary?, if_true, hreduce]

/-- A parenthesis closes the group of an expression. -/
theorem feed_rparen (h : Behind strength (.paren :: stack) e s operand) (leaf : τ) :
    s.feed .rparen leaf = some (.more ⟨stack, .operator e, s.allowStar⟩) := by
  rw [h.feed leaf (by decide) (by decide)]
  have hreduce : reduce 0 operand s.stack = (e, .paren :: stack) := h.reduces 0 (Nat.zero_le _)
  unfold State.afterOperand
  simp only [TokenKind.binary?, reduceCtorEq, if_false, hreduce]

/-- A parenthesis closes a call behind its last argument. -/
theorem feed_rparen_call {function : τ} {args : List (Expr τ)}
    (h : Behind strength (.call function args :: stack) e s operand) (leaf : τ) :
    s.feed .rparen leaf =
      some (.more ⟨stack, .operator (.call function (e :: args).reverse), s.allowStar⟩) := by
  rw [h.feed leaf (by decide) (by decide)]
  have hreduce : reduce 0 operand s.stack = (e, .call function args :: stack) :=
    h.reduces 0 (Nat.zero_le _)
  unfold State.afterOperand
  simp only [TokenKind.binary?, reduceCtorEq, if_false, hreduce]

/-- A comma ends an argument of a call. -/
theorem feed_comma {function : τ} {args : List (Expr τ)}
    (h : Behind strength (.call function args :: stack) e s operand) (leaf : τ) :
    s.feed .comma leaf =
      some (.more ⟨.call function (e :: args) :: stack, .operand, s.allowStar⟩) := by
  rw [h.feed leaf (by decide) (by decide)]
  have hreduce : reduce 0 operand s.stack = (e, .call function args :: stack) :=
    h.reduces 0 (Nat.zero_le _)
  unfold State.afterOperand
  simp only [TokenKind.binary?, reduceCtorEq, if_false, hreduce]

/-- A token that no expression continues with ends an expression that is in no group. -/
theorem feed_finished (h : Behind strength [] e s operand) {kind : TokenKind} (leaf : τ)
    (hkind : kind ∈ [TokenKind.kwAs, .quotedIdent, .comma, .kwFrom, .eof]) :
    s.feed kind leaf = some (.finished e) := by
  have hreduce : reduce 0 operand s.stack = (e, []) := h.reduces 0 (Nat.zero_le _)
  simp only [List.mem_cons, List.not_mem_nil, or_false] at hkind
  rcases hkind with rfl | rfl | rfl | rfl | rfl <;>
  · rw [h.feed leaf (by decide) (by decide)]
    unfold State.afterOperand
    simp only [TokenKind.binary?, reduceCtorEq, if_false, hreduce]

end Behind

/-! ## Names -/

theorem nameLexemes_cons (part : String) : ∀ parts : List String,
    nameLexemes (part :: parts) =
      (.quotedIdent, part) :: parts.flatMap fun p => [Lexeme.mark .dot, (.quotedIdent, p)]
  | [] => rfl
  | next :: parts =>
    congrArg (fun tokens => (TokenKind.quotedIdent, part) :: Lexeme.mark .dot :: tokens)
      (nameLexemes_cons next parts)

/-- The parts of a name behind the first ones are read onto these. -/
theorem reads_parts (stack : List (Pending String)) (allowStar : Bool) :
    ∀ parts front : List String,
      (⟨stack, .name front, allowStar⟩ : State String).reads
        (parts.flatMap fun p => [Lexeme.mark .dot, (.quotedIdent, p)]) =
        some ⟨stack, .name (front ++ parts), allowStar⟩
  | [], front => by rw [List.append_nil]; rfl
  | part :: parts, front => by
    have ih := reads_parts stack allowStar parts (front ++ [part])
    rw [List.append_assoc, List.singleton_append] at ih
    exact ih

theorem reads_name (stack : List (Pending String)) (allowStar : Bool) {parts : List String}
    (h : parts ≠ []) :
    (⟨stack, .operand, allowStar⟩ : State String).reads (nameLexemes parts) =
      some ⟨stack, .name parts, allowStar⟩ := by
  obtain ⟨part, parts, rfl⟩ := List.exists_cons_of_ne_nil h
  rw [nameLexemes_cons]
  exact reads_parts stack allowStar parts [part]

end Grammar

/-! ## Operators -/

namespace Expr

variable {τ : Type}

/-- The strength of the operator that takes the beginning of an expression as its operand. -/
def lead : Expr τ → Nat
  | .unary op _ => if op.test?.isSome then op.strength else 10
  | .binary op _ _ => op.strength
  | _ => 10

theorem strength_le_lead (e : Expr τ) : e.strength ≤ e.lead := by
  have hten : ∀ op : Operator, op.strength ≤ 10 := fun op => by cases op <;> decide
  cases e with
  | unary op operand =>
    rw [lead]
    split
    · exact Nat.le_refl _
    · exact hten op
  | binary op left right => exact Nat.le_refl _
  | text | number | null | param | name | call => exact Nat.le_refl _

/-- An operator in front of its operand is as strong as no other kind of operator. -/
theorem lead_ne_of_leading {op : Operator} (hunary : op.isUnary = true) (htest : op.test? = none)
    {e : Expr String} (h : e.Printable) : op.strength ≠ e.lead := by
  -- A negation has the strength three and a sign nine, which no operator behind an operand has.
  have hleading : op.strength = 3 ∨ op.strength = 9 := by
    cases op <;> first | cases hunary; done | cases htest; done | decide
  have hinfix : ∀ other : Operator, other.isUnary = false ∨ other.test?.isSome = true →
      other.strength ≠ 3 ∧ other.strength ≠ 9 := by
    rintro other (hother | hother) <;> cases other <;> first | cases hother; done | decide
  cases e with
  | unary other operand =>
    rw [lead]
    split
    · next hother =>
      have := hinfix other (Or.inr hother)
      omega
    · omega
  | binary other left right =>
    have := hinfix other (Or.inl h.1)
    rw [lead]
    omega
  | text | number | null | param | name | call =>
    rw [lead]
    · omega
    all_goals nofun

end Expr

/-! ## Expressions -/

/-- The tokens that begin an operand. -/
def operandStarts : List TokenKind :=
  [.string, .number, .kwNull, .question, .quotedIdent, .lparen, .plus, .minus, .kwNot]

def StartsOperand (tokens : List Lexeme) : Prop :=
  ∃ kind leaf rest, tokens = (kind, leaf) :: rest ∧ kind ∈ operandStarts

theorem StartsOperand.append {tokens : List Lexeme} (h : StartsOperand tokens)
    (rest : List Lexeme) : StartsOperand (tokens ++ rest) := by
  obtain ⟨kind, leaf, others, rfl, hmem⟩ := h
  exact ⟨kind, leaf, others ++ rest, rfl, hmem⟩

theorem StartsOperand.parenthesized {tokens : List Lexeme} (h : StartsOperand tokens)
    (needed : Bool) : StartsOperand (parenthesized needed tokens) := by
  cases needed with
  | true => exact ⟨.lparen, _, _, rfl, by decide⟩
  | false => exact h

theorem startsOperand_lexemes : ∀ e : Expr String, e.Printable → StartsOperand e.lexemes
  | .text _, _ => ⟨.string, _, _, rfl, by decide⟩
  | .number _, _ => ⟨.number, _, _, rfl, by decide⟩
  | .null _, _ => ⟨.kwNull, _, _, rfl, by decide⟩
  | .param _, _ => ⟨.question, _, _, rfl, by decide⟩
  | .call _ _, _ => ⟨.quotedIdent, _, _, rfl, by decide⟩
  | .name parts, h => by
    obtain ⟨part, parts, rfl⟩ := List.exists_cons_of_ne_nil h
    exact ⟨.quotedIdent, _, _, nameLexemes_cons part parts, by decide⟩
  | .unary op operand, h => by
    have hoperand := (startsOperand_lexemes operand h.2).parenthesized
      (operand.strength < op.strength)
    rw [Expr.lexemes]
    split
    · exact hoperand.append _
    · next htest =>
      refine ⟨op.kind, _, _, rfl, ?_⟩
      have hunary := h.1
      cases op <;> first | cases htest; done | cases hunary; done | decide
  | .binary op left right, h => ((startsOperand_lexemes left h.2.1).parenthesized _).append _

theorem startsOperand_separated {e : Expr String} (args : List (Expr String))
    (h : e.Printable) :
    StartsOperand (separated (.mark .comma) (Expr.lexemesOf (e :: args))) := by
  cases args with
  | nil => exact startsOperand_lexemes e h
  | cons next args => exact (startsOperand_lexemes e h).append _

/-- What an operand of a stack may begin with does not touch the operator on top of it. -/
def Fits (stack : List (Pending String)) (e : Expr String) : Prop :=
  ∀ op ∈ top? stack, op.strength < e.lead

theorem fits_nil (e : Expr String) : Fits [] e := nofun

/-- An expression can be read on any stack that it fits. -/
def Readable (e : Expr String) : Prop :=
  ∀ (stack : List (Pending String)) (allowStar : Bool), Fits stack e →
    ∃ s operand, (⟨stack, .operand, allowStar⟩ : State String).reads e.lexemes = some s ∧
      Behind e.strength stack e s operand

/-- A readable expression can be read as an operand, with the parentheses that it needs there. -/
theorem Readable.operand {e : Expr String} (h : Readable e) {least : Nat}
    {stack : List (Pending String)} (hfits : least ≤ e.strength → Fits stack e)
    (allowStar : Bool) :
    ∃ s operand, (⟨stack, .operand, allowStar⟩ : State String).reads
        (parenthesized (e.strength < least) e.lexemes) = some s ∧
      Behind least stack e s operand := by
  by_cases hloose : e.strength < least
  · obtain ⟨s, operand, hrun, hbehind⟩ := h (.paren :: stack) allowStar nofun
    refine ⟨⟨stack, .operator e, s.allowStar⟩, e, ?_, .of_operator _ _ _ _⟩
    -- In parentheses the expression is read on a group, which its end closes.
    have hopen : (⟨stack, .operand, allowStar⟩ : State String).feed .lparen TokenKind.lparen.label =
        some (.more ⟨.paren :: stack, .operand, allowStar⟩) := rfl
    simp only [hloose, decide_true, parenthesized, if_true]
    rw [Lexeme.mark, State.reads_cons hopen, State.reads_append hrun]
    exact State.reads_cons (hbehind.feed_rparen _) []
  · obtain ⟨s, operand, hrun, hbehind⟩ := h stack allowStar (hfits (Nat.le_of_not_lt hloose))
    refine ⟨s, operand, ?_, hbehind.mono (Nat.le_of_not_lt hloose)⟩
    simp only [hloose, decide_false, parenthesized]
    exact hrun

/-- Where an argument is due and none was read yet, the first one is read as any other. -/
theorem reads_firstArgument (stack : List (Pending String)) (allowStar : Bool)
    {tokens : List Lexeme} (h : StartsOperand tokens) :
    (⟨stack, .firstArgument, allowStar⟩ : State String).reads tokens =
      (⟨stack, .operand, allowStar⟩ : State String).reads tokens := by
  obtain ⟨kind, leaf, rest, rfl, hkind⟩ := h
  have hfeed : (⟨stack, .firstArgument, allowStar⟩ : State String).feed kind leaf =
      (⟨stack, .operand, allowStar⟩ : State String).feed kind leaf := by
    simp only [operandStarts, List.mem_cons, List.not_mem_nil, or_false] at hkind
    rcases hkind with rfl | rfl | rfl | rfl | rfl | rfl | rfl | rfl | rfl <;> rfl
  rw [State.reads, State.reads, hfeed]

theorem feed_leading {op : Operator} (hunary : op.isUnary = true) (htest : op.test? = none)
    (stack : List (Pending String)) (allowStar : Bool) (leaf : String) :
    (⟨stack, .operand, allowStar⟩ : State String).feed op.kind leaf =
      some (.more ⟨.leading op :: stack, .operand, allowStar⟩) := by
  cases op <;> first | cases hunary; done | cases htest; done | rfl

theorem binary?_kind {op : Operator} (h : op.isUnary = false) : op.kind.binary? = some op := by
  cases op <;> first | cases h; done | rfl

/-- A test behind an operand. -/
theorem reads_test {op : Operator} {test : List Lexeme} (htest : op.test? = some test)
    {stack : List (Pending String)} {e operand : Expr String} {s : State String}
    (h : Behind op.strength stack e s operand)
    (htop : ∀ outer ∈ top? stack, outer.strength < op.strength) :
    s.reads test = some ⟨stack, .operator (.unary op e), s.allowStar⟩ := by
  cases op <;> first
    | cases htest; done
    | cases htest
      rw [Lexeme.mark, State.reads_cons (h.feed_is _ (Nat.le_refl 4) htop)]
      rfl

/-- A test is read behind its operand. -/
theorem Readable.test {op : Operator} {test : List Lexeme} {operand : Expr String}
    (htest : op.test? = some test) (h : Readable operand) : Readable (.unary op operand) := by
  intro stack allowStar hfits
  have hlead : (Expr.unary op operand).lead = op.strength := by simp [Expr.lead, htest]
  -- The test takes the whole operand since the operator on top of the stack binds more loosely.
  have htop : ∀ outer ∈ top? stack, outer.strength < op.strength := by
    intro outer houter
    rw [← hlead]
    exact hfits outer houter
  have hinner : op.strength ≤ operand.strength → Fits stack operand := by
    intro hle outer houter
    have hlt := htop outer houter
    have hlead' := operand.strength_le_lead
    omega
  obtain ⟨s, x, hrun, hbehind⟩ := h.operand hinner allowStar
  refine ⟨_, _, ?_, .of_operator _ stack (.unary op operand) s.allowStar⟩
  simp only [Expr.lexemes, htest]
  rw [State.reads_append hrun]
  exact reads_test htest hbehind htop

/-- An operator is read in front of its operand, which does not begin with an operator that binds
more loosely. -/
theorem Readable.leading {op : Operator} {operand : Expr String} (hop : op.isUnary = true)
    (htest : op.test? = none) (hprintable : operand.Printable) (h : Readable operand) :
    Readable (.unary op operand) := by
  intro stack allowStar hfits
  have hinner : op.strength ≤ operand.strength → Fits (.leading op :: stack) operand := by
    intro hle outer houter
    cases houter
    have hne := Expr.lead_ne_of_leading hop htest hprintable
    have hlead := operand.strength_le_lead
    omega
  obtain ⟨s, x, hrun, hbehind⟩ := h.operand hinner allowStar
  refine ⟨s, x, ?_, hbehind.phase, fun least hleast => ?_⟩
  · simp only [Expr.lexemes, htest]
    rw [Lexeme.mark, State.reads_cons (feed_leading hop htest stack allowStar _)]
    exact hrun
  · rw [hbehind.reduces least hleast, reduce]
    exact if_pos hleast

/-- An operator is read between its operands. The right one is read above the operator, so it must
bind more tightly or stand in parentheses. -/
theorem Readable.binary {op : Operator} {left right : Expr String} (hop : op.isUnary = false)
    (hleft : Readable left) (hright : Readable right) : Readable (.binary op left right) := by
  intro stack allowStar hfits
  have hbelow : op.strength ≤ left.strength → Fits stack left := by
    intro hle outer houter
    have hlt : outer.strength < op.strength := hfits outer houter
    have hlead := left.strength_le_lead
    omega
  -- Without parentheses the right operand binds more tightly than the operator below it.
  have habove : op.strength + 1 ≤ right.strength → Fits (.binary op left :: stack) right := by
    intro hle outer houter
    cases houter
    exact Nat.lt_of_lt_of_le hle right.strength_le_lead
  obtain ⟨s, x, hrun, hbehind⟩ := hleft.operand hbelow allowStar
  obtain ⟨s', x', hrun', hbehind'⟩ := hright.operand habove s.allowStar
  refine ⟨s', x', ?_, hbehind'.phase, fun least hleast => ?_⟩
  · rw [Expr.lexemes, State.reads_append hrun, Lexeme.mark,
      State.reads_cons (hbehind.feed_binary (binary?_kind hop) _ (Nat.le_refl _) hfits)]
    exact hrun'
  · rw [hbehind'.reduces least (Nat.le_succ_of_le hleast), reduce]
    exact if_pos hleast

mutual

/-- The tokens of an expression are read as the expression. -/
theorem Expr.reads_lexemes : ∀ e : Expr String, e.Printable → Readable e
  | .text leaf, _ => fun stack allowStar _ =>
    ⟨⟨stack, .operator (.text leaf), allowStar⟩, _, rfl, .of_operator _ _ _ _⟩
  | .number leaf, _ => fun stack allowStar _ =>
    ⟨⟨stack, .operator (.number leaf), allowStar⟩, _, rfl, .of_operator _ _ _ _⟩
  | .null leaf, _ => fun stack allowStar _ =>
    ⟨⟨stack, .operator (.null leaf), allowStar⟩, _, rfl, .of_operator _ _ _ _⟩
  | .param leaf, _ => fun stack allowStar _ =>
    ⟨⟨stack, .operator (.param leaf), allowStar⟩, _, rfl, .of_operator _ _ _ _⟩
  | .name parts, h => fun stack allowStar _ =>
    ⟨⟨stack, .name parts, allowStar⟩, .name parts, reads_name stack allowStar h,
      Or.inr ⟨parts, rfl, rfl⟩, fun _ _ => rfl⟩
  | .call function [], _ => fun stack allowStar _ =>
    ⟨⟨stack, .operator (.call function []), allowStar⟩, _, rfl, .of_operator _ _ _ _⟩
  | .call function (e :: args), h => by
    intro stack allowStar _
    obtain ⟨allowStar', hrun⟩ :=
      Expr.reads_arguments (e :: args) h (List.cons_ne_nil e args) function [] stack allowStar
    have hstart := (startsOperand_separated args h.1).append [Lexeme.mark .rparen]
    rw [← reads_firstArgument _ _ hstart] at hrun
    exact ⟨_, _, hrun, .of_operator _ stack (.call function (e :: args)) allowStar'⟩
  | .unary op operand, h => by
    have hoperand := Expr.reads_lexemes operand h.2
    cases htest : op.test? with
    | some test => exact hoperand.test htest
    | none => exact hoperand.leading h.1 htest h.2
  | .binary op left right, h =>
    (Expr.reads_lexemes left h.2.1).binary h.1 (Expr.reads_lexemes right h.2.2)

/-- The arguments of a call that are left are read up to the parenthesis behind them. -/
theorem Expr.reads_arguments : ∀ args : List (Expr String), Expr.AllPrintable args → args ≠ [] →
    ∀ (function : String) (before : List (Expr String)) (stack : List (Pending String))
      (allowStar : Bool),
      ∃ allowStar', (⟨.call function before :: stack, .operand, allowStar⟩ : State String).reads
        (separated (.mark .comma) (Expr.lexemesOf args) ++ [.mark .rparen]) =
        some ⟨stack, .operator (.call function (before.reverse ++ args)), allowStar'⟩
  | [], _, hne, _, _, _, _ => absurd rfl hne
  | [e], h, _, function, before, stack, allowStar => by
    obtain ⟨s, x, hrun, hbehind⟩ :=
      Expr.reads_lexemes e h.1 (.call function before :: stack) allowStar nofun
    refine ⟨s.allowStar, ?_⟩
    rw [Expr.lexemesOf, Expr.lexemesOf, separated, State.reads_append hrun, Lexeme.mark,
      State.reads_cons (hbehind.feed_rparen_call _), List.reverse_cons]
    rfl
  | e :: next :: args, h, _, function, before, stack, allowStar => by
    obtain ⟨s, x, hrun, hbehind⟩ :=
      Expr.reads_lexemes e h.1 (.call function before :: stack) allowStar nofun
    obtain ⟨allowStar', hrest⟩ := Expr.reads_arguments (next :: args) h.2
      (List.cons_ne_nil next args) function (e :: before) stack s.allowStar
    refine ⟨allowStar', ?_⟩
    rw [List.reverse_cons, List.append_assoc, List.singleton_append] at hrest
    rw [Expr.lexemesOf, Expr.lexemesOf, separated, List.append_assoc, State.reads_append hrun,
      List.cons_append, Lexeme.mark, State.reads_cons (hbehind.feed_comma _)]
    exact hrest
    nofun

end

/-! ## Statements -/

namespace Grammar.Stage

variable {head : Head String} {body : Body String}

/-- An attribute that is no star is read as an expression. -/
theorem run_attribute_expr {tokens : List Lexeme} (h : StartsOperand tokens) :
    (Stage.attribute head).run tokens =
      (Stage.attributeExpr head (State.start true)).run tokens := by
  obtain ⟨kind, leaf, rest, rfl, hkind⟩ := h
  have hfeed : (Stage.attribute head).feed kind leaf =
      (Stage.attributeExpr head (State.start true)).feed kind leaf := by
    simp only [operandStarts, List.mem_cons, List.not_mem_nil, or_false] at hkind
    rcases hkind with rfl | rfl | rfl | rfl | rfl | rfl | rfl | rfl | rfl <;> rfl
  rw [run, run, hfeed]

/-- Behind the expression of an attribute its name is read, if it has one. -/
theorem run_naming {e operand : Expr String} {s : State String} {strength : Nat}
    (h : Behind strength [] e s operand) (naming : Option (Naming String)) {kind : TokenKind}
    (hkind : kind = .comma ∨ kind = .kwFrom) (leaf : String) (rest : List Lexeme) :
    (Stage.attributeExpr head s).run (namingLexemes naming ++ (kind, leaf) :: rest) =
      (Stage.attributeEnd head (.value e naming)).run ((kind, leaf) :: rest) := by
  have hfeed : ∀ (k : TokenKind) (leaf : String),
      k ∈ [TokenKind.kwAs, .quotedIdent, .comma, .kwFrom, .eof] →
      (Stage.attributeExpr head s).feed k leaf = afterValue head e k leaf := by
    intro k leaf hmem
    rw [feed, onAttributeExpr, h.feed_finished leaf hmem]
  rcases naming with _ | ⟨_ | keyword, name⟩
  · rw [namingLexemes, List.nil_append, run, run]
    rcases hkind with rfl | rfl
    · rw [hfeed _ leaf (by decide)]
      rfl
    · rw [hfeed _ leaf (by decide)]
      rfl
  · exact run_more (hfeed .quotedIdent name (by decide)) _
  · exact run_more (hfeed .kwAs keyword (by decide)) _

/-- The tokens of an attribute are read as the attribute. -/
theorem run_attribute {a : Attribute String} (h : a.Printable) {kind : TokenKind}
    (hkind : kind = .comma ∨ kind = .kwFrom) (leaf : String) (rest : List Lexeme) :
    (Stage.attribute head).run (a.lexemes ++ (kind, leaf) :: rest) =
      (Stage.attributeEnd head a).run ((kind, leaf) :: rest) := by
  cases a with
  | star star => rfl
  | starOf parts star =>
    have hname := reads_name [] true h.1
    have hstart := (startsOperand_lexemes (.name parts) h.1).append
      ([Lexeme.mark .dot, (.star, star)] ++ (kind, leaf) :: rest)
    rw [Expr.lexemes] at hstart
    rw [Attribute.lexemes, List.append_assoc, run_attribute_expr hstart, State.start,
      run_attributeExpr hname]
    rfl
  | value e naming =>
    obtain ⟨s, operand, hrun, hbehind⟩ := Expr.reads_lexemes e h.1 [] true (fits_nil e)
    have hstart := (startsOperand_lexemes e h.1).append
      (namingLexemes naming ++ (kind, leaf) :: rest)
    rw [Attribute.lexemes, List.append_assoc, run_attribute_expr hstart, State.start,
      run_attributeExpr hrun]
    exact run_naming hbehind naming hkind leaf rest

/-- The tokens of a SELECT list are read as its attributes. -/
theorem run_attributes (from_ : String) (rest : List Lexeme) :
    ∀ {attributes : List (Attribute String)} (head : Head String), attributes ≠ [] →
      (∀ a ∈ attributes, a.Printable) →
      (Stage.attribute head).run
          (separated (.mark .comma) (attributes.map Attribute.lexemes) ++ (.kwFrom, from_) :: rest) =
        (Stage.source ⟨head.select, attributes.reverse ++ head.attributes, from_, []⟩).run rest
  | [], _, hne, _ => absurd rfl hne
  | [a], head, _, h => by
    rw [List.map_cons, List.map_nil, separated,
      run_attribute (h a List.mem_cons_self) (Or.inr rfl)]
    rfl
  | a :: next :: attributes, head, _, h => by
    have ih := run_attributes from_ rest { head with attributes := a :: head.attributes }
      (List.cons_ne_nil next attributes) fun b hb => h b (List.mem_cons_of_mem _ hb)
    rw [List.map_cons, List.map_cons, separated, List.append_assoc, List.cons_append, Lexeme.mark,
      run_attribute (h a List.mem_cons_self) (Or.inl rfl), run_more rfl, List.reverse_cons,
      List.append_assoc]
    exact ih
    nofun

/-- The parts of a source's name behind the first ones are read onto these. -/
theorem run_parts (body : Body String) (rest : List Lexeme) :
    ∀ parts front : List String, front ≠ [] →
    front.length + parts.length ≤ 3 →
    (Stage.sourceParts body front).run
        ((parts.flatMap fun p => [Lexeme.mark .dot, (.quotedIdent, p)]) ++ rest) =
      (Stage.sourceParts body (front ++ parts)).run rest
  | [], front, _, _ => by rw [List.append_nil]; rfl
  | part :: parts, front, hne, hlength => by
    rw [List.length_cons] at hlength
    have hdot : (Stage.sourceParts body front).feed .dot TokenKind.dot.label =
        some (.more (.sourceDot body front)) := by
      have hlt : front.length < 3 := by omega
      rw [feed, onSourceParts, if_pos hlt]
    have ih := run_parts body rest parts (front ++ [part]) (by simp) (by simp; omega)
    rw [List.append_assoc, List.singleton_append] at ih
    rw [List.flatMap_cons, List.append_assoc, List.cons_append, Lexeme.mark, run_more hdot]
    exact ih

/-- The tokens of a source are read as the source. -/
theorem run_source {item : FromItem String} (h : item.Printable) {kind : TokenKind}
    (hkind : kind = .comma ∨ kind = .kwWhere ∨ kind = .eof) (leaf : String) (rest : List Lexeme) :
    (Stage.source body).run (item.lexemes ++ (kind, leaf) :: rest) =
      (Stage.sourceEnd (addSource body item.parts item.naming)).run ((kind, leaf) :: rest) := by
  obtain ⟨parts, naming⟩ := item
  obtain ⟨hne, hlength, hnaming⟩ := h
  obtain ⟨part, parts, rfl⟩ := List.exists_cons_of_ne_nil hne
  have hparts := run_parts body (namingLexemes naming ++ (kind, leaf) :: rest) parts [part]
    (List.cons_ne_nil _ _) (by rw [List.length_singleton, Nat.add_comm]; exact hlength)
  rw [FromItem.lexemes, nameLexemes_cons, List.append_assoc, List.cons_append]
  refine (run_more rfl _).trans (hparts.trans ?_)
  rcases naming with _ | ⟨_ | keyword, name⟩
  · rw [namingLexemes, List.nil_append, run, run]
    rcases hkind with rfl | rfl | rfl <;> rfl
  · rfl
  · rfl

/-- The tokens of a FROM list are read as its sources. -/
theorem run_sources {kind : TokenKind} (hkind : kind = .kwWhere ∨ kind = .eof) (leaf : String)
    (rest : List Lexeme) :
    ∀ {sources : List (FromItem String)} (body : Body String), sources ≠ [] →
      (∀ item ∈ sources, item.Printable) →
      (Stage.source body).run
          (separated (.mark .comma) (sources.map FromItem.lexemes) ++ (kind, leaf) :: rest) =
        (Stage.sourceEnd { body with sources := sources.reverse ++ body.sources }).run
          ((kind, leaf) :: rest)
  | [], _, hne, _ => absurd rfl hne
  | [item], body, _, h => by
    rw [List.map_cons, List.map_nil, separated,
      run_source (h item List.mem_cons_self) (Or.inr hkind)]
    rfl
  | item :: next :: sources, body, _, h => by
    have ih := run_sources hkind leaf rest (addSource body item.parts item.naming)
      (List.cons_ne_nil next sources) fun other hother => h other (List.mem_cons_of_mem _ hother)
    rw [List.map_cons, List.map_cons, separated, List.append_assoc, List.cons_append, Lexeme.mark,
      run_source (h item List.mem_cons_self) (Or.inl rfl), run_more rfl, List.reverse_cons,
      List.append_assoc]
    exact ih
    nofun

end Grammar.Stage

/-- The tokens of a statement are read as the statement. -/
theorem Statement.run_lexemes {s : Statement String} (h : s.Printable) (leaf : String) :
    (Stage.start : Stage String).run (s.lexemes ++ [(.eof, leaf)]) = some (.accepted s) := by
  obtain ⟨select, attributes, from_, sources, restriction⟩ := s
  have hattributes := Stage.run_attributes from_
    (separated (.mark .comma) (sources.map FromItem.lexemes) ++
      (restrictionLexemes restriction ++ [(.eof, leaf)])) ⟨select, []⟩ h.attributes_ne h.attributes
  rw [Statement.lexemes, List.cons_append, List.append_assoc, List.cons_append, List.append_assoc]
  refine (Stage.run_more rfl _).trans (hattributes.trans ?_)
  have hclose : ∀ restriction : Option (Restriction String),
      (⟨select, attributes.reverse ++ [], from_, sources.reverse ++ []⟩ : Body String).close
        restriction = ⟨select, attributes, from_, sources, restriction⟩ := by
    intro restriction
    simp [Body.close]
  cases restriction with
  | none =>
    refine (Stage.run_sources (Or.inr rfl) leaf [] _ h.sources_ne h.sources).trans ?_
    exact congrArg (fun s => some (Outcome.accepted s)) (hclose none)
  | some r =>
    obtain ⟨s, operand, hrun, hbehind⟩ :=
      Expr.reads_lexemes r.condition (h.restriction r rfl).2 [] false (fits_nil _)
    have hend : (Stage.condition ⟨select, attributes.reverse ++ [], from_, sources.reverse ++ []⟩
        r.keyword s).run [(.eof, leaf)] =
        some (.accepted ⟨select, attributes, from_, sources, some r⟩) := by
      rw [Stage.run, Stage.feed, Stage.onCondition, hbehind.feed_finished leaf (by decide),
      ← hclose]
    refine (Stage.run_sources (Or.inl rfl) r.keyword _ _ h.sources_ne h.sources).trans ?_
    refine (Stage.run_more rfl _).trans ?_
    exact (Stage.run_condition hrun _).trans hend

end SelectEngine
