import SelectEngine.Proofs.Grammar.Params

/-!
# Literals where parameters stood

Where the reader takes a mark it takes a literal as well, and goes on as if the mark had been a
parameter for which the literal stands (`Stage.feed_literal`). So the tokens of a statement with a
literal in place of one of its marks make the statement with the literal in the parameter's place
(`Stage.run_literal`).
-/

set_option autoImplicit false

namespace SelectEngine

variable {τ ρ : Type}

namespace Grammar

/-- The expression that a token makes on its own. -/
def literal? (kind : TokenKind) (leaf : τ) : Option (Expr τ) :=
  match kind with
  | .number => some (.number leaf)
  | .string => some (.text leaf)
  | .kwNull => some (.null leaf)
  | .question => some (.param leaf)
  | _ => none

variable (f : τ → ρ) (g : τ → Expr ρ)

namespace State

variable {s : State τ} {kind : TokenKind} {leaf : τ}

/-- A mark behind an operand is refused, or ends the expression. -/
theorem afterOperand_question_ne {left : Expr τ} {later : State τ} :
    s.afterOperand left .question ≠ some (.more later) := by
  unfold afterOperand
  simp only [TokenKind.binary?, reduceCtorEq, if_false]
  generalize reduce 0 left s.stack = reduced
  obtain ⟨operand, _ | ⟨p, stack⟩⟩ := reduced
  · simp
  · cases p <;> simp

theorem onOperand_literal {later : State τ} (h : s.onOperand .question leaf = some (.more later))
    (hliteral : literal? kind (f leaf) = some (g leaf)) :
    (s.graft f g).onOperand kind (f leaf) = some (.more (later.graft f g)) := by
  cases h
  cases kind <;> simp only [literal?, Option.some.injEq, reduceCtorEq] at hliteral <;>
    simp only [onOperand, State.graft, Phase.graft, Expr.graft, ← hliteral]

/-- Where a mark is read, a literal is read in its place. -/
theorem feed_literal {later : State τ} (h : s.feed .question leaf = some (.more later))
    (hliteral : literal? kind (f leaf) = some (g leaf)) :
    (s.graft f g).feed kind (f leaf) = some (.more (later.graft f g)) := by
  have hkind : kind ≠ .rparen := by
    rintro rfl
    cases hliteral
  obtain ⟨stack, phase, allowStar⟩ := s
  cases phase with
  | operand => exact onOperand_literal f g h hliteral
  | firstArgument =>
    have hoperand := h
    rw [feed, onFirstArgument_of_ne _ _ (by decide)] at hoperand
    have hother := onFirstArgument_of_ne
      (State.graft f g ⟨stack, .firstArgument, allowStar⟩) (f leaf) hkind
    exact hother.trans (onOperand_literal f g hoperand hliteral)
  | operator left => exact absurd h afterOperand_question_ne
  | name parts => exact absurd h (by cases parts <;> exact afterOperand_question_ne)
  | nameDot | isTest | isNotTest => cases h

end State

namespace Stage

variable {kind : TokenKind} {leaf : τ}

theorem onAttributeExpr_literal {head : Head τ} {expr : State τ} {later : Stage τ}
    (h : onAttributeExpr head expr .question leaf = some (.more later))
    (hliteral : literal? kind (f leaf) = some (g leaf)) :
    onAttributeExpr (head.graft f g) (expr.graft f g) kind (f leaf) =
      some (.more (later.graft f g)) := by
  unfold onAttributeExpr at h ⊢
  cases hfeed : expr.feed .question leaf with
  | none =>
    rw [hfeed] at h
    cases h
  | some progress =>
    rw [hfeed] at h
    cases progress with
    | more next =>
      cases h
      rw [State.feed_literal f g hfeed hliteral]
      rfl
    | finished value => cases h
    | starOf parts star =>
      -- No mark is a star.
      obtain ⟨⟩ := State.takes_feed hfeed
      contradiction

/-- Where a mark is read, a literal is read in its place. -/
theorem feed_literal {stage later : Stage τ} (h : stage.feed .question leaf = some (.more later))
    (hliteral : literal? kind (f leaf) = some (g leaf)) :
    (stage.graft f g).feed kind (f leaf) = some (.more (later.graft f g)) := by
  cases stage with
  | «attribute» head =>
    have hkind : kind ≠ .star := by
      rintro rfl
      cases hliteral
    rw [feed, if_neg (by decide)] at h
    rw [Stage.graft, feed, if_neg hkind]
    exact onAttributeExpr_literal f g h hliteral
  | attributeExpr head expr => exact onAttributeExpr_literal f g h hliteral
  | condition body keyword expr =>
    rw [feed, onCondition] at h
    rw [Stage.graft, feed, onCondition]
    cases hfeed : expr.feed .question leaf with
    | none =>
      rw [hfeed] at h
      cases h
    | some progress =>
      rw [hfeed] at h
      cases progress with
      | more next =>
        cases h
        rw [State.feed_literal f g hfeed hliteral]
        rfl
      | finished value => cases h
      | starOf parts star => cases h
  | start | attributeName | attributeEnd | source | sourceParts | sourceDot | sourceName
  | sourceEnd | closed => cases h

/-- The leaf under its other label. -/
def relabel (f : τ → ρ) (token : TokenKind × τ) : TokenKind × ρ := (token.1, f token.2)

/-- Tokens none of whose marks has an expression put in its place make the same statement. -/
theorem run_graft {tokens : List (TokenKind × τ)}
    (hothers : ∀ token ∈ tokens, token.1 = .question → g token.2 = .param (f token.2))
    (stage : Stage τ) :
    (stage.graft f g).run (tokens.map (relabel f)) =
      (stage.run tokens).map (Outcome.graft f g) := by
  induction tokens generalizing stage with
  | nil => rfl
  | cons token tokens ih =>
    obtain ⟨kind, leaf⟩ := token
    obtain ⟨hfirst, hrest⟩ := List.forall_mem_cons.mp hothers
    have hfeed := feed_graft f g kind leaf hfirst stage
    rw [List.map_cons, relabel, run, run, hfeed]
    cases stage.feed kind leaf with
    | none => rfl
    | some outcome =>
      cases outcome with
      | more next => exact ih hrest next
      | accepted statement => rfl

/-- Tokens with a literal in place of one of their marks make the statement with the literal in
place of the parameter. -/
theorem run_literal {front back : List (TokenKind × τ)} {statement : Statement τ}
    (hfront : ∀ token ∈ front, token.1 = .question → g token.2 = .param (f token.2))
    (hback : ∀ token ∈ back, token.1 = .question → g token.2 = .param (f token.2))
    (hliteral : literal? kind (f leaf) = some (g leaf)) (stage : Stage τ)
    (h : stage.run (front ++ (.question, leaf) :: back) = some (.accepted statement)) :
    (stage.graft f g).run (front.map (relabel f) ++ (kind, f leaf) :: back.map (relabel f)) =
      some (.accepted (statement.graft f g)) := by
  induction front generalizing stage with
  | nil =>
    rw [List.nil_append, run] at h
    rw [List.map_nil, List.nil_append, run]
    cases hfeed : stage.feed .question leaf with
    | none =>
      rw [hfeed] at h
      cases h
    | some outcome =>
      rw [hfeed] at h
      cases outcome with
      | more next =>
        rw [feed_literal f g hfeed hliteral]
        dsimp only at h ⊢
        rw [run_graft f g hback, h]
        rfl
      | accepted accepted => cases eof_of_accepted hfeed
  | cons token front ih =>
    obtain ⟨other, otherLeaf⟩ := token
    obtain ⟨hfirst, hrest⟩ := List.forall_mem_cons.mp hfront
    have hgraft := feed_graft f g other otherLeaf hfirst stage
    rw [List.cons_append, run] at h
    rw [List.map_cons, List.cons_append, relabel, run, hgraft]
    cases hfeed : stage.feed other otherLeaf with
    | none =>
      rw [hfeed] at h
      cases h
    | some outcome =>
      rw [hfeed] at h
      cases outcome with
      | more next => exact ih hrest next h
      | accepted accepted =>
        cases h
        rfl

end Stage

end Grammar

end SelectEngine
