import SelectEngine.Proofs.Grammar.Enclosed
import SelectEngine.Proofs.Printing.Lexemes

/-!
# Asking a condition for its truth

A WHERE clause asks for one of the three truths of a condition: that it is true, by the condition in
parentheses, that it is false, by `NOT` in front of them, or that it is unknown, by `IS NULL` behind
them (`Truth.asking`). A statement without a WHERE clause that asks for a truth in one is narrowed
by what asks for it, on the same expression for every truth (`Stage.accepted_asking`).
-/

set_option autoImplicit false

namespace SelectEngine

namespace Truth

variable {τ : Type}

/-- What stands in front of a condition where it is asked for a truth. -/
def opening : Truth → List Lexeme
  | some false => [.mark .kwNot, .mark .lparen]
  | some true | none => [.mark .lparen]

/-- What stands behind it. -/
def closing : Truth → List Lexeme
  | none => [.mark .rparen, .mark .kwIs, .mark .kwNull]
  | some _ => [.mark .rparen]

/-- A condition asked for a truth. -/
def asking (t : Truth) (condition : List Lexeme) : List Lexeme :=
  t.opening ++ condition ++ t.closing

/-- The expression that holds where the condition has the truth. -/
def asked (t : Truth) (e : Expr τ) : Expr τ :=
  match t with
  | some true => e
  | some false => .unary .not e
  | none => .unary .isNull e

end Truth

/-- The statement with a WHERE clause. -/
def Statement.narrow {τ : Type} (s : Statement τ) (keyword : τ) (condition : Expr τ) :
    Statement τ :=
  { s with restriction := some ⟨keyword, condition⟩ }

namespace Grammar

variable {p : List Lexeme}

theorem zipIdx_eq_map_relabel (kinds : List TokenKind) (n : Nat) :
    kinds.zipIdx n = (kinds.zipIdx).map (Stage.relabel (n + ·)) := by
  rw [List.zipIdx_eq_map_add]
  rfl

/-- A complete expression that is asked for a truth is read as what asks for the truth, on the same
expression for every truth. -/
theorem State.reads_asking (h : Spells [.phrase .expr] (p.map Prod.fst)) :
    ∃ e : Expr TokenId, (∀ leaf ∈ e.leaves, leaf.2 < p.length) ∧
      ∀ (t : Truth) (n leaf : Nat), ∃ later : State TokenId,
        (State.start false).reads (((t.asking p).map Prod.fst).zipIdx n) = some later ∧
          later.feed .eof leaf = some (.finished (t.asked (e.map (n + t.opening.length + ·)))) := by
  have hkinds : ((p.map Prod.fst).zipIdx).map Prod.fst = p.map Prod.fst :=
    List.zipIdx_map_fst 0 (p.map Prod.fst)
  rw [← hkinds] at h
  obtain ⟨e, allowStar, hleaves, hreads⟩ := State.reads_enclosed h
  refine ⟨e, fun leaf hleaf => ?_, fun t n leaf => ?_⟩
  · obtain ⟨kind, hmem⟩ := hleaves leaf hleaf
    have hlt := List.snd_lt_add_of_mem_zipIdx hmem
    rwa [List.length_map, Nat.zero_add] at hlt
  have hinside (n : Nat) (outer : List (Pending TokenId)) (opening closing : TokenId) :=
    hreads (n + ·) outer opening closing
  simp only [← zipIdx_eq_map_relabel] at hinside
  -- The tokens from the opening parenthesis to the closing one.
  have hlayout (n : Nat) :
      (([Lexeme.mark .lparen] ++ p ++ [Lexeme.mark .rparen]).map Prod.fst).zipIdx n =
      (.lparen, n) :: ((p.map Prod.fst).zipIdx (n + 1) ++ [(.rparen, n + 1 + p.length)]) := by
    simp [Lexeme.mark, List.zipIdx_append, List.zipIdx_cons]
  cases t with
  | none =>
    refine ⟨⟨[], .operator (.unary .isNull (e.map (n + 1 + ·))), allowStar⟩, ?_, rfl⟩
    have htokens : ((Truth.asking none p).map Prod.fst).zipIdx n =
        (([Lexeme.mark .lparen] ++ p ++ [Lexeme.mark .rparen]).map Prod.fst).zipIdx n ++
          [(.kwIs, n + 1 + p.length + 1), (.kwNull, n + 1 + p.length + 2)] := by
      simp [Truth.asking, Truth.opening, Truth.closing, Lexeme.mark, List.zipIdx_append,
        List.zipIdx_cons]
    rw [htokens, hlayout, State.start, State.reads_append (hinside (n + 1) [] n _)]
    rfl
  | some answer =>
    cases answer with
    | true =>
      refine ⟨⟨[], .operator (e.map (n + 1 + ·)), allowStar⟩, ?_, rfl⟩
      exact (congrArg _ (hlayout n)).trans (hinside (n + 1) [] n (n + 1 + p.length))
    | false =>
      refine ⟨⟨[.leading .not], .operator (e.map (n + 2 + ·)), allowStar⟩, ?_, rfl⟩
      have hnot : (State.start false).feed .kwNot n =
          some (.more ⟨[.leading .not], .operand, false⟩) := rfl
      refine (State.reads_cons hnot _).trans ?_
      exact (congrArg _ (hlayout (n + 1))).trans
        (hinside (n + 2) [.leading .not] (n + 1) (n + 2 + p.length))

namespace Stage

variable {stage : Stage TokenId}

/-- Tokens in front of the end of the text leave the reader at a stage from which it goes on. -/
theorem exists_run_front {front back : List (TokenKind × TokenId)} {s : Statement TokenId}
    (hfront : ∀ token ∈ front, token.1 ≠ .eof)
    (h : stage.run (front ++ back) = some (.accepted s)) :
    ∃ later, stage.run front = some (.more later) ∧ later.run back = some (.accepted s) := by
  induction front generalizing stage with
  | nil => exact ⟨stage, rfl, h⟩
  | cons token front ih =>
    obtain ⟨kind, leaf⟩ := token
    obtain ⟨hkind, hothers⟩ := List.forall_mem_cons.mp hfront
    rw [List.cons_append, run] at h
    rw [run]
    cases hfeed : stage.feed kind leaf with
    | none =>
      rw [hfeed] at h
      cases h
    | some outcome =>
      rw [hfeed] at h
      cases outcome with
      | more next => exact ih hothers h
      | accepted found => exact absurd (eof_of_accepted hfeed) hkind

/-- Where both the end of the text and a WHERE clause may follow, the WHERE clause restricts the
statement that the end of the text would have closed. -/
theorem exists_body_of_feed {s : Statement TokenId} {outcome : Outcome TokenId}
    {leaf keyword : TokenId} (heof : stage.feed .eof leaf = some (.accepted s))
    (hwhere : stage.feed .kwWhere keyword = some outcome) :
    ∃ body : Body TokenId, s = body.close none ∧
      outcome = .more (.condition body keyword (State.start false)) := by
  cases stage with
  | sourceParts body parts =>
    cases heof
    cases hwhere
    exact ⟨addSource body parts none, rfl, rfl⟩
  | sourceEnd body =>
    cases heof
    cases hwhere
    exact ⟨body, rfl, rfl⟩
  | condition body k expr =>
    -- No second WHERE clause is read inside the first one.
    rw [feed, onCondition] at hwhere
    split at hwhere
    · next later hfeed =>
      obtain ⟨hclause, -, -⟩ := State.takes_feed hfeed
      cases hclause
    · cases hwhere
    · cases hwhere
    · cases hwhere
  | attributeExpr head expr =>
    -- No statement ends inside its SELECT list.
    rw [feed, onAttributeExpr] at heof
    rcases expr.feed_eof leaf with hnone | ⟨e, he⟩
    · rw [hnone] at heof
      cases heof
    · rw [he] at heof
      cases heof
  | closed statement => cases hwhere
  | start | «attribute» | attributeName | attributeEnd | source | sourceDot | sourceName =>
    cases heof

/-- Behind a FROM list a condition that is asked for a truth narrows the statement that would have
ended there, on the same expression for every truth. -/
theorem accepted_asking {head : List TokenKind} {s : Statement TokenId}
    (hp : Spells [.phrase .expr] (p.map Prod.fst)) (hhead : ∀ kind ∈ head, kind ≠ .eof)
    (h : start.run ((head ++ [TokenKind.eof]).zipIdx) = some (.accepted s)) :
    ∃ e : Expr TokenId, (∀ leaf ∈ e.leaves, leaf.2 < p.length) ∧
      ∀ (t : Truth) (s' : Statement TokenId),
        start.run ((head ++ TokenKind.kwWhere :: ((t.asking p).map Prod.fst ++ [.eof])).zipIdx) =
          some (.accepted s') →
        s.restriction = none ∧
          s' = s.narrow head.length (t.asked (e.map (head.length + 1 + t.opening.length + ·))) := by
  obtain ⟨e, hleaves, hreads⟩ := State.reads_asking hp
  refine ⟨e, hleaves, fun t s' h' => ?_⟩
  have hfront : ∀ token ∈ head.zipIdx, token.1 ≠ .eof := fun token htoken =>
    hhead token.1 (List.fst_mem_of_mem_zipIdx htoken)
  rw [List.zipIdx_append, Nat.zero_add] at h h'
  -- The same tokens stand in front of the end of the text and of the WHERE clause.
  obtain ⟨stage, hrun, hend⟩ := exists_run_front hfront h
  obtain ⟨stage', hrun', hwhere⟩ := exists_run_front hfront h'
  obtain rfl : stage = stage' := Outcome.more.inj (Option.some.inj (hrun.symm.trans hrun'))
  have heof : stage.feed .eof head.length = some (.accepted s) := by
    rw [List.zipIdx_singleton, run] at hend
    split at hend
    · cases hend
    · next hfeed => exact hfeed.trans hend
    · cases hend
  rw [List.zipIdx_cons, run] at hwhere
  cases hfeed : stage.feed .kwWhere head.length with
  | none =>
    rw [hfeed] at hwhere
    cases hwhere
  | some outcome =>
    rw [hfeed] at hwhere
    obtain ⟨body, rfl, rfl⟩ := exists_body_of_feed heof hfeed
    dsimp only at hwhere
    -- What asks for the truth is read up to the end of the text, which closes the statement.
    rw [List.zipIdx_append, List.zipIdx_singleton] at hwhere
    obtain ⟨later, htokens, hfinished⟩ := hreads t (head.length + 1)
      (head.length + 1 + ((t.asking p).map Prod.fst).length)
    rw [run_condition htokens, run, feed, onCondition, hfinished] at hwhere
    cases hwhere
    exact ⟨rfl, rfl⟩

/-- The operands of a statement are tokens in front of the end of the text. -/
theorem lt_of_leaf {head : List TokenKind} {s : Statement TokenId}
    (h : start.run ((head ++ [TokenKind.eof]).zipIdx) = some (.accepted s)) {leaf : Leaf TokenId}
    (hleaf : leaf ∈ s.leaves) (hne : leaf.1 ≠ .token) : leaf.2 < head.length := by
  have hleaves : s.leaves = start.leavesOf ((head ++ [TokenKind.eof]).zipIdx) := leaves_run h
  rw [hleaves] at hleaf
  obtain ⟨kind, hmem, hoperand⟩ := exists_operand_of_leaf hleaf hne
  rw [List.zipIdx_append, List.zipIdx_singleton, Nat.zero_add] at hmem
  rcases List.mem_append.mp hmem with hhead | hend
  · have hlt := List.snd_lt_add_of_mem_zipIdx hhead
    rwa [Nat.zero_add] at hlt
  · -- The end of the text is no operand.
    obtain rfl : kind = .eof := congrArg Prod.fst (List.mem_singleton.mp hend)
    cases hoperand

theorem lt_of_param {head : List TokenKind} {s : Statement TokenId}
    (h : start.run ((head ++ [TokenKind.eof]).zipIdx) = some (.accepted s)) {leaf : TokenId}
    (hleaf : leaf ∈ s.params) : leaf < head.length := by
  obtain ⟨found, hfound, hparam⟩ := List.mem_filterMap.mp hleaf
  split at hparam
  · next htype =>
    cases hparam
    exact lt_of_leaf h hfound (htype ▸ nofun)
  · cases hparam

end Stage

end Grammar

end SelectEngine
