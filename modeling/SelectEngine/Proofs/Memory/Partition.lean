import SelectEngine.Proofs.Alike.Query
import SelectEngine.Proofs.Plan.Partition

/-!
# Ternary logic divides every result

A statement without a WHERE clause and the three statements that ask a condition for its truths in
one: if all of them can be prepared and none fails, every row of the first one is a row of exactly
one of the others, and each of these keeps the order of the rows (`Memory.query_partition`).
-/

set_option autoImplicit false

namespace SelectEngine

open Grammar

/-! ## Texts with given tokens -/

/-- The text has these tokens, in whatever layout. -/
def HasTokens (text : String) (tokens : List Lexeme) : Prop :=
  ∃ source, (tokenize source text).map (List.map Token.content) = .ok (tokens ++ [(.eof, "")])

/-- The text of the token with a number. -/
def wordAt (tokens : List Lexeme) (i : TokenId) : String := (tokens[i]?.map Prod.snd).getD ""

/-- The end of the text stands for no more than no token does. -/
theorem wordAt_append_eof (tokens : List Lexeme) (i : TokenId) :
    wordAt (tokens ++ [(.eof, "")]) i = wordAt tokens i := by
  rw [wordAt, wordAt, List.getElem?_append]
  split
  · rfl
  · next hi =>
    rw [List.getElem?_eq_none (Nat.le_of_not_lt hi)]
    cases i - tokens.length <;> rfl

theorem wordAt_append_left {tokens more : List Lexeme} {i : TokenId} (hi : i < tokens.length) :
    wordAt (tokens ++ more) i = wordAt tokens i := by
  rw [wordAt, wordAt, List.getElem?_append_left hi]

theorem wordAt_append_right (tokens more : List Lexeme) (i : TokenId) :
    wordAt (tokens ++ more) (tokens.length + i) = wordAt more i := by
  rw [wordAt, wordAt, List.getElem?_append_right (Nat.le_add_right _ _), Nat.add_sub_cancel_left]

/-- A text with a plan has a statement on its tokens that means what the plan means. -/
theorem Plan.exists_statement_of_tokens {catalog : Memory.Catalog} {registry : Registry}
    {settings : Settings} {text : String} {tokens : List Lexeme} {plan : Plan}
    (htokens : HasTokens text tokens) (hplan : ofText catalog registry settings text = .ok plan) :
    ∃ s : Statement TokenId,
      Stage.start.run ((tokens.map Prod.fst ++ [TokenKind.eof]).zipIdx) = some (.accepted s) ∧
        s.meaning (wordAt tokens) catalog registry settings = .ok plan.meaning ∧
        ∀ kind ∈ tokens.map Prod.fst, kind ≠ .eof := by
  obtain ⟨source, hcontents⟩ := htokens
  obtain ⟨ts, htokenize, hcontent⟩ := Outcome.map_eq_ok hcontents
  obtain ⟨tree, all, s, hread, hmeaning⟩ := exists_meaning_of_ofText hplan
  obtain rfl : all = ts := congrArg Prod.fst
    (hread.drain.symm.trans (drain_of_tokenize htokenize settings.reading.sourceName))
  have hkinds : all.map Token.kind = tokens.map Prod.fst ++ [.eof] := by
    have hfirst := congrArg (List.map Prod.fst) hcontent
    rwa [List.map_map, List.map_append] at hfirst
  have hword : tree.word = wordAt tokens := by
    funext i
    rw [hread.word_eq, ← wordAt_append_eof, wordAt, ← hcontent, List.getElem?_map, Option.map_map]
    rfl
  refine ⟨s.map Fin.val, ?_, hword ▸ hmeaning, fun kind hkind => ?_⟩
  · rw [← hkinds, ← numbered_eq_zipIdx]
    exact hread.run
  · have hends := ne_eof_of_drain hread.drain 0
    rw [numbered_eq_zipIdx, hkinds, List.zipIdx_append, List.zipIdx_singleton,
      List.dropLast_concat] at hends
    rw [← List.zipIdx_map_fst 0 (tokens.map Prod.fst)] at hkind
    obtain ⟨token, htoken, rfl⟩ := List.mem_map.mp hkind
    exact hends token htoken

/-- The words of a statement on the tokens of a text are its words on these and more. -/
theorem sameWords_append {head more : List Lexeme} {s : Statement TokenId}
    (h : Stage.start.run ((head.map Prod.fst ++ [TokenKind.eof]).zipIdx) = some (.accepted s)) :
    s.SameWords (wordAt head) (wordAt (head ++ more)) := by
  have hword {leaf : Leaf TokenId} (hleaf : leaf ∈ s.leaves) (hne : leaf.1 ≠ .token) :
      wordAt head leaf.2 = wordAt (head ++ more) leaf.2 := by
    have hlt := Stage.lt_of_leaf h hleaf hne
    rw [List.length_map] at hlt
    exact (wordAt_append_left hlt).symm
  exact
    { name := fun leaf hleaf => congrArg Text.foldCase (hword hleaf nofun)
      text := fun leaf hleaf => hword hleaf nofun
      number := fun leaf hleaf => hword hleaf nofun }

/-- The words of a condition behind what stands in front of it. -/
theorem wordAt_asking (head p : List Lexeme) (t : Truth) {i : TokenId} (hi : i < p.length) :
    wordAt (head ++ .mark .kwWhere :: t.asking p) (head.length + 1 + t.opening.length + i) =
      wordAt p i := by
  have htokens : head ++ .mark .kwWhere :: t.asking p =
      (head ++ [.mark .kwWhere] ++ t.opening) ++ (p ++ t.closing) := by
    simp [Truth.asking]
  have hlength : (head ++ [Lexeme.mark .kwWhere] ++ t.opening).length =
      head.length + 1 + t.opening.length := by
    rw [List.length_append, List.length_append, List.length_singleton]
  rw [htokens, ← hlength, wordAt_append_right, wordAt_append_left hi]

namespace Memory

variable {catalog : Catalog} {registry : Registry} {settings : Settings}

theorem exists_plan_of_query {text : String} {params : Params} {rows : List (List Value)}
    (h : (query (backend catalog) registry settings text params ()).1 = .ok (some rows)) :
    ∃ plan, Plan.ofText catalog registry settings text = .ok plan ∧
      plan.answer catalog settings params = .ok rows := by
  rw [query_eq_answer] at h
  obtain ⟨plan, hplan, h⟩ := Outcome.bind_eq_ok h
  obtain ⟨found, hanswer, hrows⟩ := Outcome.map_eq_ok h
  exact ⟨plan, hplan, Option.some.inj hrows ▸ hanswer⟩

/-- Ternary logic divides every result. Let a text have the tokens of a statement without a WHERE
clause, and let three others ask in a WHERE clause behind them for the truths of a complete
expression: `(p)`, `NOT (p)` and `(p) IS NULL`. If all four queries over the same tables, with the
same functions, settings and parameters, have rows, then every row of the first has one truth, and
each of the others has the rows with the truth that it asks for, in their order. -/
theorem query_partition {text : String} {asking : Truth → String} {head p : List Lexeme}
    {params : Params} {rows : List (List Value)} {found : Truth → List (List Value)}
    (hp : Spells [.phrase .expr] (p.map Prod.fst)) (htext : HasTokens text head)
    (hasking : ∀ t, HasTokens (asking t) (head ++ .mark .kwWhere :: t.asking p))
    (hrows : (query (backend catalog) registry settings text params ()).1 = .ok (some rows))
    (hfound : ∀ t, (query (backend catalog) registry settings (asking t) params ()).1 =
      .ok (some (found t))) :
    ∃ truths : List Truth, truths.length = rows.length ∧ ∀ t, found t = t.select rows truths := by
  obtain ⟨plan, hplan, hanswer⟩ := exists_plan_of_query hrows
  choose plans hplans hanswers using fun t => exists_plan_of_query (hfound t)
  -- The statements of the others narrow that of the first by what asks for a truth.
  obtain ⟨s, hrun, hmeaning, hhead⟩ := Plan.exists_statement_of_tokens htext hplan
  obtain ⟨e, hleaves, hnarrow⟩ := Stage.accepted_asking hp hhead hrun
  have hasked : ∀ t, s.restriction = none ∧
      (s.narrow head.length (t.asked (e.map (head.length + 1 + t.opening.length + ·)))).meaning
        (wordAt (head ++ .mark .kwWhere :: t.asking p)) catalog registry settings =
        .ok (plans t).meaning := by
    intro t
    obtain ⟨s', hrun', hmeaning', -⟩ := Plan.exists_statement_of_tokens (hasking t) (hplans t)
    rw [List.map_append, List.map_cons, List.append_assoc, List.cons_append] at hrun'
    obtain ⟨hs, rfl⟩ := hnarrow t s' hrun'
    rw [List.length_map] at hmeaning'
    exact ⟨hs, hmeaning'⟩
  have hs : s.restriction = none := (hasked none).1
  have hbodies t := Statement.meaning_narrow hs (sameWords_append hrun) hmeaning (hasked t).2
  -- All three ask for a truth of one bound condition.
  have hconditions : ∀ t, ∃ b, (plans (some true)).meaning.condition = some b ∧
      (plans t).meaning.condition = some (t.askedBound b) := by
    intro t
    have hinjective (n : Nat) : Function.Injective (n + ·) := fun _ _ h => Nat.add_left_cancel h
    have hfresh (t : Truth) (i : TokenId) : head.length + 1 + t.opening.length + i ∉ s.params := by
      intro hparam
      have hlt := Stage.lt_of_param hrun hparam
      rw [List.length_map, Nat.add_assoc, Nat.add_assoc] at hlt
      exact Nat.not_lt.mpr (Nat.le_add_right _ _) hlt
    refine Statement.condition_asked (t := some true) hs (hinjective _) (hinjective _)
      (fun leaf _ => ⟨hfresh _ _, hfresh _ _⟩) (fun leaf hleaf => ?_)
      ((hbodies (some true)).1.symm.trans (hbodies t).1) (hasked (some true)).2 (hasked t).2
    rw [wordAt_asking head p _ (hleaves leaf hleaf), wordAt_asking head p _ (hleaves leaf hleaf)]
  obtain ⟨b, hb, -⟩ := hconditions (some true)
  have hpredicates t : (plans t).predicate.map Prod.snd = some (t.askedBound b) := by
    obtain ⟨b', hb', hcondition⟩ := hconditions t
    obtain rfl : b = b' := Option.some.inj (hb.symm.trans hb')
    exact hcondition
  have hnone : plan.predicate = none := Option.map_eq_none_iff.mp (hbodies none).2.2
  refine Plan.rowsOf_asked hnone hpredicates (fun t combined => ?_) hanswer fun t => ?_
  · exact (Plan.evalAll_eq_of_agree (Plan.allAgree_of_folded params (hbodies t).2.1) settings
      combined).symm
  · have htables : plan.sources.map (Plan.tableRows catalog) =
        (plans t).sources.map (Plan.tableRows catalog) :=
      Plan.map_tableRows_congr catalog (hbodies t).1
    rw [htables]
    exact hanswers t

/-- A condition with a parameter, which is null, has all three truths. -/
theorem query_partition_parameter :
    ∃ truths : List Truth, truths.length = 4 ∧ ∀ t : Truth,
      (query (backend oneTable) .empty .default
          (match t with
            | some true => "SELECT x.a, y.a FROM t x, t y WHERE (x.a = y.a OR ? AND x.a = 1)"
            | some false => "SELECT x.a, y.a FROM t x, t y WHERE NOT (x.a = y.a OR ? AND x.a = 1)"
            | none => "SELECT x.a, y.a FROM t x, t y WHERE (x.a = y.a OR ? AND x.a = 1) IS NULL")
          .empty ()).1 =
        .ok (some (t.select [[.integer 1, .integer 1], [.integer 1, .integer 2],
          [.integer 2, .integer 1], [.integer 2, .integer 2]] truths)) := by
  have hname {rest : List Form} {w : List TokenKind} (h : Spells rest w) :
      Spells (.phrase .operand :: rest) (.ident :: .dot :: .ident :: w) :=
    spells_operand_cons.mpr (Or.inr (Or.inr (Or.inl ⟨rfl, Or.inl
      (spells_dotNames_cons.mpr (Or.inr ⟨rfl, spells_name_cons.mpr ⟨rfl, .stop h⟩⟩))⟩)))
  have hliteral {rest : List Form} {w : List TokenKind} {kind : TokenKind}
      (hkind : kind ∈ literalKinds) (h : Spells rest w) :
      Spells (.phrase .operand :: rest) (kind :: w) :=
    spells_operand_cons.mpr (Or.inr (Or.inl ⟨hkind, h⟩))
  have hlink {rest : List Form} {w : List TokenKind} {kind : TokenKind}
      (hkind : kind ∈ binaryKinds) (h : Spells (.phrase .operand :: .many link :: rest) w) :
      Spells (.many link :: rest) (kind :: w) :=
    spells_links_cons.mpr (Or.inr (Or.inl ⟨hkind, h⟩))
  have hp : Spells [.phrase .expr] (([(.ident, "x"), (.dot, "."), (.ident, "a"), (.eq, "="),
      (.ident, "y"), (.dot, "."), (.ident, "a"), (.kwOr, "OR"), (.question, "?"), (.kwAnd, "AND"),
      (.ident, "x"), (.dot, "."), (.ident, "a"), (.eq, "="), (.number, "1")] : List Lexeme).map
        Prod.fst) :=
    spells_expr.mpr (hname (hlink (by decide) (hname (hlink (by decide) (hliteral (by decide)
      (hlink (by decide) (hname (hlink (by decide) (hliteral (by decide) (.stop .nil))))))))))
  obtain ⟨truths, hlength, hfound⟩ := @query_partition oneTable .empty .default
    "SELECT x.a, y.a FROM t x, t y"
    (fun
      | some true => "SELECT x.a, y.a FROM t x, t y WHERE (x.a = y.a OR ? AND x.a = 1)"
      | some false => "SELECT x.a, y.a FROM t x, t y WHERE NOT (x.a = y.a OR ? AND x.a = 1)"
      | none => "SELECT x.a, y.a FROM t x, t y WHERE (x.a = y.a OR ? AND x.a = 1) IS NULL")
    [(.kwSelect, "SELECT"), (.ident, "x"), (.dot, "."), (.ident, "a"), (.comma, ","),
      (.ident, "y"), (.dot, "."), (.ident, "a"), (.kwFrom, "FROM"), (.ident, "t"), (.ident, "x"),
      (.comma, ","), (.ident, "t"), (.ident, "y")] _ .empty
    [[.integer 1, .integer 1], [.integer 1, .integer 2], [.integer 2, .integer 1],
      [.integer 2, .integer 2]]
    (fun
      | some true => [[.integer 1, .integer 1], [.integer 2, .integer 2]]
      | some false => [[.integer 2, .integer 1]]
      | none => [[.integer 1, .integer 2]])
    hp ⟨"", by decide +kernel⟩ (fun t => ⟨"", by rcases t with _ | _ | _ <;> decide +kernel⟩)
    (by decide +kernel) (fun t => by rcases t with _ | _ | _ <;> decide +kernel)
  refine ⟨truths, hlength, fun t => ?_⟩
  rw [← hfound]
  rcases t with _ | _ | _ <;> decide +kernel

end Memory

end SelectEngine
