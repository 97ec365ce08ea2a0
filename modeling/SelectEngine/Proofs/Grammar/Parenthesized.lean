import SelectEngine.Proofs.Grammar.Asking

/-!
# What stands alone in parentheses

An opening parenthesis in an expression opens a group or a call (`Stage.opened_of_feed`). Tokens that
stand alone behind it and make an expression there (`State.Makes`) are read as if the expression were
put in place of a parameter (`Stage.Opened.run_makes`), of which the reader knows only that it is an
operand. So a statement with such tokens in it is a statement with one more parameter in whose place
their expression stands (`Stage.exists_graft_of_parenthesized`).
-/

set_option autoImplicit false

namespace SelectEngine.Grammar

variable {τ ρ : Type}

namespace State

/-- Alone in the parentheses of a group or of a call, the tokens are read as the expression. -/
structure Makes (tokens : List (TokenKind × τ)) (o : Expr τ) : Prop where
  group : ∀ (outer : List (Pending τ)) (allowStar : Bool) (closing : τ),
    (⟨.paren :: outer, .operand, allowStar⟩ : State τ).reads (tokens ++ [(.rparen, closing)]) =
      some ⟨outer, .operator o, allowStar⟩
  call : ∀ (function : τ) (outer : List (Pending τ)) (allowStar : Bool) (closing : τ),
    (⟨.call function [] :: outer, .firstArgument, allowStar⟩ : State τ).reads
        (tokens ++ [(.rparen, closing)]) =
      some ⟨outer, .operator (.call function [o]), allowStar⟩

theorem makes_number (leaf : τ) : Makes [(.number, leaf)] (.number leaf) where
  group _ _ _ := rfl
  call _ _ _ _ := rfl

theorem makes_negative (sign leaf : τ) :
    Makes [(.minus, sign), (.number, leaf)] (.unary .neg (.number leaf)) where
  group _ _ _ := rfl
  call _ _ _ _ := rfl

/-- An opening parenthesis has just been read. -/
inductive Opened : State τ → Prop
  | group (outer : List (Pending τ)) (allowStar : Bool) :
      Opened ⟨.paren :: outer, .operand, allowStar⟩
  | call (function : τ) (outer : List (Pending τ)) (allowStar : Bool) :
      Opened ⟨.call function [] :: outer, .firstArgument, allowStar⟩

variable {s : State τ} {opening : τ} {progress : Progress τ}

/-- An opening parenthesis opens a group where an operand is due, and a call behind a name; it never
ends an expression that is open. -/
theorem opened_of_feed (h : s.feed .lparen opening = some progress) :
    (∃ later, progress = .more later ∧ later.Opened) ∨ ∃ e, progress = .finished e := by
  have after (left : Expr τ) (h : s.afterOperand left .lparen = some progress) :
      ∃ e, progress = .finished e := by
    unfold afterOperand at h
    simp only [TokenKind.binary?, reduceCtorEq, if_false] at h
    generalize reduce 0 left s.stack = reduced at h
    obtain ⟨operand, _ | ⟨p, stack⟩⟩ := reduced
    · cases h
      exact ⟨operand, rfl⟩
    · cases p <;> cases h
  obtain ⟨stack, phase, allowStar⟩ := s
  cases phase with
  | operand =>
    cases h
    exact Or.inl ⟨_, rfl, .group stack allowStar⟩
  | firstArgument =>
    cases h
    exact Or.inl ⟨_, rfl, .group stack allowStar⟩
  | operator left => exact Or.inr (after left h)
  | name parts =>
    rcases parts with _ | ⟨function, _ | ⟨part, parts⟩⟩
    · cases h
    · cases h
      exact Or.inl ⟨_, rfl, .call function stack allowStar⟩
    · cases h
  | nameDot | isTest | isNotTest => cases h

/-- The tokens are read as an expression that is put in place of a parameter. -/
theorem Opened.reads_makes (h : s.Opened) (f : τ → ρ) (g : τ → Expr ρ) {leaf : τ}
    {tokens : List (TokenKind × ρ)} (htokens : Makes tokens (g leaf)) (closing : ρ) :
    ∃ next : State τ, (.param, leaf) ∈ next.leaves ∧
      (s.graft f g).reads (tokens ++ [(.rparen, closing)]) = some (next.graft f g) := by
  cases h with
  | group outer allowStar =>
    refine ⟨⟨outer, .operator (.param leaf), allowStar⟩, ?_, ?_⟩
    · exact List.mem_append_right _ List.mem_cons_self
    · exact htokens.group (outer.map (Pending.graft f g)) allowStar closing
  | call function outer allowStar =>
    refine ⟨⟨outer, .operator (.call function [.param leaf]), allowStar⟩, ?_, ?_⟩
    · exact List.mem_append_right _ (List.mem_cons_of_mem _ List.mem_cons_self)
    · exact htokens.call (f function) (outer.map (Pending.graft f g)) allowStar closing

end State

namespace Stage

/-- An opening parenthesis in an expression has just been read. -/
inductive Opened : Stage τ → Prop
  | attributeExpr {s : State τ} (head : Head τ) (h : s.Opened) : Opened (.attributeExpr head s)
  | condition {s : State τ} (body : Body τ) (keyword : τ) (h : s.Opened) :
      Opened (.condition body keyword s)

variable {stage later : Stage τ} {opening : τ}

theorem opened_of_onAttributeExpr {head : Head τ} {expr : State τ}
    (h : onAttributeExpr head expr .lparen opening = some (.more later)) : later.Opened := by
  unfold onAttributeExpr at h
  cases hfeed : expr.feed .lparen opening with
  | none =>
    rw [hfeed] at h
    cases h
  | some progress =>
    rw [hfeed] at h
    rcases State.opened_of_feed hfeed with ⟨next, rfl, hnext⟩ | ⟨e, rfl⟩
    · cases h
      exact .attributeExpr head hnext
    · cases h

theorem opened_of_feed (h : stage.feed .lparen opening = some (.more later)) : later.Opened := by
  cases stage with
  | «attribute» head =>
    rw [feed, if_neg (by decide)] at h
    exact opened_of_onAttributeExpr h
  | attributeExpr head expr => exact opened_of_onAttributeExpr h
  | condition body keyword expr =>
    rw [feed, onCondition] at h
    cases hfeed : expr.feed .lparen opening with
    | none =>
      rw [hfeed] at h
      cases h
    | some progress =>
      rw [hfeed] at h
      rcases State.opened_of_feed hfeed with ⟨next, rfl, hnext⟩ | ⟨e, rfl⟩
      · cases h
        exact .condition body keyword hnext
      · cases h
  | start | attributeName | attributeEnd | source | sourceParts | sourceDot | sourceName
  | sourceEnd | closed => cases h

theorem opened_of_run {front : List (TokenKind × τ)}
    (h : stage.run (front ++ [(.lparen, opening)]) = some (.more later)) : later.Opened := by
  induction front generalizing stage with
  | nil =>
    rw [List.nil_append, run] at h
    split at h
    · next hfeed =>
      cases h
      exact opened_of_feed hfeed
    · cases h
    · cases h
  | cons token front ih =>
    rw [List.cons_append, run] at h
    split at h
    · exact ih h
    · cases h
    · cases h

/-- The tokens are read as an expression that is put in place of a parameter. -/
theorem Opened.run_makes (h : stage.Opened) (f : τ → ρ) (g : τ → Expr ρ) {leaf : τ}
    {tokens : List (TokenKind × ρ)} (htokens : State.Makes tokens (g leaf)) (closing : ρ) :
    ∃ next : Stage τ, (.param, leaf) ∈ next.leaves ∧ ∀ back,
      (stage.graft f g).run (tokens ++ (.rparen, closing) :: back) = (next.graft f g).run back := by
  cases h with
  | attributeExpr head h =>
    obtain ⟨next, hleaf, hreads⟩ := h.reads_makes f g htokens closing
    refine ⟨.attributeExpr head next, List.mem_append_right _ hleaf, fun back => ?_⟩
    rw [← List.singleton_append, ← List.append_assoc]
    exact run_attributeExpr hreads back
  | condition body keyword h =>
    obtain ⟨next, hleaf, hreads⟩ := h.reads_makes f g htokens closing
    refine ⟨.condition body keyword next,
      List.mem_append_right _ (List.mem_cons_of_mem _ hleaf), fun back => ?_⟩
    rw [← List.singleton_append, ← List.append_assoc]
    exact run_condition hreads back

/-! ## One more label -/

/-- The expression in place of the parameter that is not labelled with a token. -/
def placing (o : Expr τ) (leaf : Option τ) : Expr τ := leaf.elim o .param

/-- Where no label is new, the tokens are read as they are without the new one. -/
theorem run_placing (o : Expr τ) (k : τ) (stage : Stage (Option τ))
    (tokens : List (TokenKind × τ)) :
    (stage.graft (·.getD k) (placing o)).run tokens =
      (stage.run (tokens.map (relabel some))).map (Outcome.graft (·.getD k) (placing o)) := by
  have hold : (tokens.map (relabel some)).map (relabel (·.getD k)) = tokens := by
    rw [List.map_map]
    exact List.map_id tokens
  rw [← run_graft, hold]
  intro token htoken _
  obtain ⟨other, -, rfl⟩ := List.mem_map.mp htoken
  rfl

/-- A statement with tokens that stand alone in parentheses is one with the expression that they
make in place of a parameter. -/
theorem exists_graft_of_parenthesized {front inner back : List (TokenKind × TokenId)}
    {opening closing : TokenId} {o : Expr TokenId} {s : Statement TokenId}
    (hfront : ∀ token ∈ front, token.1 ≠ .eof) (hinner : State.Makes inner o)
    (h : start.run (front ++ (.lparen, opening) :: (inner ++ (.rparen, closing) :: back)) =
      some (.accepted s)) :
    ∃ s' : Statement (Option TokenId), (.param, none) ∈ s'.leaves ∧
      s = s'.graft (·.getD closing) (placing o) := by
  -- The stage behind the opening parenthesis, with and without the new label.
  have hopening : ∀ token ∈ front ++ [(TokenKind.lparen, opening)], token.1 ≠ .eof := by
    intro token htoken
    rcases List.mem_append.mp htoken with hmem | hmem
    · exact hfront token hmem
    · cases List.mem_singleton.mp hmem
      nofun
  rw [← List.singleton_append, ← List.append_assoc] at h
  obtain ⟨stage, hstage, hrest⟩ := exists_run_front hopening h
  have hmap : start.run ((front ++ [(TokenKind.lparen, opening)]).map (relabel some)) =
      some (.more (stage.map some)) := by
    refine (run_map some start _).trans ?_
    rw [hstage]
    rfl
  have hopened : (stage.map some).Opened := by
    rw [List.map_append] at hmap
    exact opened_of_run hmap
  have hgraft : (stage.map some).graft (·.getD closing) (placing o) = stage := by
    have hrun := run_placing o closing start (front ++ [(.lparen, opening)])
    rw [hmap] at hrun
    exact Outcome.more.inj (Option.some.inj (hrun.symm.trans hstage))
  -- Behind the closing parenthesis the expression stands for the new parameter.
  have hplaced : State.Makes inner (placing o none) := hinner
  obtain ⟨next, hleaf, hmakes⟩ := hopened.run_makes (·.getD closing) (placing o) hplaced closing
  rw [← hgraft, hmakes, run_placing] at hrest
  obtain ⟨outcome, hrun, haccepted⟩ := Option.map_eq_some_iff.mp hrest
  cases outcome with
  | more later => cases haccepted
  | accepted s' =>
    cases haccepted
    have hleaves : s'.leaves = next.leaves ++ next.leavesOf (back.map (relabel some)) :=
      leaves_run hrun
    refine ⟨s', ?_, rfl⟩
    rw [hleaves]
    exact List.mem_append_left _ hleaf

end Stage

end SelectEngine.Grammar
