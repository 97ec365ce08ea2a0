import SelectEngine.Proofs.Ordinary.Query
import SelectEngine.Proofs.Plan.Graft
import SelectEngine.Proofs.Tree.Literal

/-!
# Binding a parameter means the same as writing its literal

A query over tables in memory may have the value of a parameter bound to it or written into its
text. Where the mark of the parameter is replaced by the literal of the value with a blank on both
sides, and the other parameters keep their values, both queries have the same rows or fail in the
same way if both texts can be prepared (`Memory.query_literal`). So no value that is written as a
literal can change what the rest of the statement means.
-/

set_option autoImplicit false

namespace SelectEngine

open Grammar

/-! ## Parameters -/

/-- The one binds as the other does, with a value put in behind its first `count`. -/
structure Params.Inserted (q p : Params) (count : Nat) (v : Value) : Prop where
  value : q.value (count + 1) = v
  before : ∀ n < count, q.value (n + 1) = p.value (n + 1)
  behind : ∀ n ≥ count, q.value (n + 2) = p.value (n + 1)

namespace Params

theorem lookup_zipIdx (vs : List Value) (start n : Nat) :
    ((vs.zipIdx start).map fun (v, i) => (i + 1, v)).lookup (start + n + 1) = vs[n]? := by
  induction vs generalizing start n with
  | nil => rfl
  | cons v vs ih =>
    rw [List.zipIdx_cons, List.map_cons, List.lookup_cons]
    cases n with
    | zero => simp
    | succ n =>
      have hne : ((start + (n + 1) + 1 : Nat) == start + 1) = false := by
        rw [beq_eq_false_iff_ne]
        omega
      rw [hne, show start + (n + 1) + 1 = start + 1 + n + 1 by omega]
      exact ih (start + 1) n

theorem value_ofList (vs : List Value) (n : Nat) :
    (ofList vs).value (n + 1) = vs[n]?.getD .null := by
  have hlookup := lookup_zipIdx vs 0 n
  rw [Nat.zero_add] at hlookup
  exact congrArg (Option.getD · .null) hlookup

/-- A value among others in their order. -/
theorem inserted_ofList (front : List Value) (v : Value) (back : List Value) :
    Inserted (ofList (front ++ v :: back)) (ofList (front ++ back)) front.length v where
  value := by
    rw [value_ofList, List.getElem?_append_right (Nat.le_refl _), Nat.sub_self]
    rfl
  before n hn := by
    rw [value_ofList, value_ofList, List.getElem?_append_left hn, List.getElem?_append_left hn]
  behind n hn := by
    rw [value_ofList, value_ofList, List.getElem?_append_right hn,
      List.getElem?_append_right (Nat.le_succ_of_le hn), Nat.succ_sub hn, List.getElem?_cons_succ]

/-- Where parameters are counted in the order of their leaves, the leaf that the other list leaves
out has the value that is put in, and every other leaf has one value. -/
theorem Inserted.value_idxOf {q p : Params} {front back : List TokenId} {k leaf : TokenId}
    {v : Value} (h : q.Inserted p front.length v) (hnodup : (front ++ k :: back).Nodup)
    (hleaf : leaf ∈ front ++ k :: back) :
    leaf = k ∧ q.value ((front ++ k :: back).idxOf leaf + 1) = v ∨
      leaf ≠ k ∧ p.value ((front ++ back).idxOf leaf + 1) =
        q.value ((front ++ k :: back).idxOf leaf + 1) := by
  rcases idxOf_middle hnodup hleaf with ⟨heq, hidx⟩ | ⟨hne, n, hn, ⟨hlt, hidx⟩ | ⟨hle, hidx⟩⟩
  · rw [hidx]
    exact Or.inl ⟨heq, h.value⟩
  · rw [hn, hidx]
    exact Or.inr ⟨hne, (h.before n hlt).symm⟩
  · rw [hn, hidx]
    exact Or.inr ⟨hne, (h.behind n hle).symm⟩

end Params

/-! ## Texts -/

/-- The tokens of a text with a literal in place of a mark. -/
theorem drain_of_mark {source before after literal : String} {ts us : List Token} {t : Token}
    {kind : TokenKind} {text : List Char}
    (h : tokenize source (before ++ "?" ++ after) = .ok (ts ++ t :: us)) (ht : t.kind = .question)
    (hoffset : t.span.offset = before.utf8ByteSize)
    (hspelled : Spelling kind text literal.toList) (other : String) :
    ∃ ts' t' us',
      (Scan.ofText (before ++ " " ++ literal ++ " " ++ after)).drain other =
        (ts' ++ t' :: us', none) ∧
      t'.content = (kind, String.ofList text) ∧ ts'.map Token.content = ts.map Token.content ∧
      us'.map Token.content = us.map Token.content := by
  have hmark : before ++ "?" ++ after = String.ofList (before.toList ++ '?' :: after.toList) := by
    rw [← String.toList_inj, String.toList_ofList]
    simp
  have hliteral : before ++ " " ++ literal ++ " " ++ after =
      String.ofList (before.toList ++ ' ' :: (literal.toList ++ ' ' :: after.toList)) := by
    rw [← String.toList_inj, String.toList_ofList]
    simp
  have hdrain := drain_of_tokenize h other
  rw [hmark] at hdrain
  rw [← byteLength_toList] at hoffset
  rw [hliteral]
  exact Scan.drain_replaced hdrain ht hoffset hspelled

namespace Memory

variable {catalog : Catalog} {registry : Registry} {settings : Settings}

theorem ofText_of_prepared {text : String} {c : Cursor Scan Unit}
    (h : Cursor.prepare (backend catalog) registry settings text () = .ok c) :
    ∃ plan, Plan.ofText catalog registry settings text = .ok plan := by
  cases hplan : Plan.ofText catalog registry settings text with
  | error e => cases (prepare_of_error hplan).symm.trans h
  | ok plan => exact ⟨plan, rfl⟩

/-- Binding a parameter means the same as writing its literal. Let a text have a mark between
`before` and `after`, and let the value be a null, a text or an integer that is not negative. If the
text and the one with the literal of the value, between blanks, in place of the mark can both be
prepared, then the query with the value bound to the mark and the query with the remaining values in
their order have the same rows, or fail in the same way. -/
theorem query_literal {source before after : String} {v : Value} {ts us : List Token} {t : Token}
    {q p : Params} {c c' : Cursor Scan Unit} (hv : v.Written)
    (htokens : tokenize source (before ++ "?" ++ after) = .ok (ts ++ t :: us))
    (hkind : t.kind = .question) (hoffset : t.span.offset = before.utf8ByteSize)
    (hparams : q.Inserted p (markCount ts) v)
    (hprepared : Cursor.prepare (backend catalog) registry settings (before ++ "?" ++ after) () =
      .ok c)
    (hprepared' : Cursor.prepare (backend catalog) registry settings
      (before ++ " " ++ v.literal ++ " " ++ after) () = .ok c') :
    (query (backend catalog) registry settings (before ++ "?" ++ after) q ()).1 =
      (query (backend catalog) registry settings (before ++ " " ++ v.literal ++ " " ++ after) p
        ()).1 := by
  -- Both texts are read as the same tokens but for the mark and the literal.
  obtain ⟨kind, text, hne, hspelled, hliteral⟩ := hv.exists_literal (τ := TokenId)
  obtain ⟨e, he, hdenotes⟩ := hliteral ts.length
  have hdrain := drain_of_tokenize htokens settings.reading.sourceName
  obtain ⟨ts', t', us', hdrain', ht', hts, hus⟩ :=
    drain_of_mark htokens hkind hoffset hspelled settings.reading.sourceName
  have hkind' : t'.kind = kind := congrArg Prod.fst ht'
  -- So the one statement is the other with the literal in place of the parameter.
  obtain ⟨plan, hplan⟩ := ofText_of_prepared hprepared
  obtain ⟨plan', hplan'⟩ := ofText_of_prepared hprepared'
  obtain ⟨tree, all, s, hread, hmeaning⟩ := Plan.exists_meaning_of_ofText hplan
  obtain ⟨tree', all', s', hread', hmeaning'⟩ := Plan.exists_meaning_of_ofText hplan'
  obtain rfl : all = ts ++ t :: us := congrArg Prod.fst (hread.drain.symm.trans hdrain)
  obtain rfl : all' = ts' ++ t' :: us' := congrArg Prod.fst (hread'.drain.symm.trans hdrain')
  have hstatement := hread.statement_eq hread' hkind hts hus (hkind' ▸ he)
  obtain ⟨front, back, hfront, hall, hall'⟩ :=
    hread.params_eq hread' hkind (hkind' ▸ hne) hts hus
  rw [hstatement] at hmeaning' hall'
  -- Every other leaf keeps its word or its value, and the literal denotes the value put in.
  have hword : tree'.word ts.length = String.ofList text :=
    (hread'.word_mark hts).trans (congrArg Prod.snd ht')
  have hwords : ∀ leaf ∈ (s.map Fin.val).leaves, leaf.1 ≠ .param →
      tree'.word (id leaf.2) = tree.word leaf.2 := fun leaf hleaf htype =>
    hread.word_eq_of_leaf hread' hkind hts hus hleaf htype
  have hagree : Meaning.Agree q p plan.meaning plan'.meaning := by
    refine Statement.agree_graft hwords (fun leaf hleaf => ?_) hmeaning hmeaning'
    have hnodup := hread.nodup_params
    rw [hall] at hleaf hnodup ⊢
    rw [hall']
    rw [← hfront] at hparams
    rcases hparams.value_idxOf hnodup hleaf with ⟨rfl, hvalue⟩ | ⟨hother, hvalue⟩
    · right
      rw [hvalue, Tree.ReadAs.replacing, if_pos rfl]
      exact hdenotes _ hword
    · exact Or.inl ⟨if_neg hother, hvalue⟩
  rw [query_eq_answer, query_eq_answer, hplan, hplan', Outcome.ok_bind, Outcome.ok_bind,
    Plan.answer_eq_of_agree hagree]

/-- A text with a quote in it, between two other parameters. -/
theorem query_literal_quoted :
    (query (backend oneTable) .empty .default "SELECT ?, ? FROM t WHERE a < ?"
        (.ofList [.integer 7, .text "it's", .integer 2]) ()).1 =
      (query (backend oneTable) .empty .default "SELECT ?,  'it''s'  FROM t WHERE a < ?"
        (.ofList [.integer 7, .integer 2]) ()).1 ∧
    (query (backend oneTable) .empty .default "SELECT ?, ? FROM t WHERE a < ?"
        (.ofList [.integer 7, .text "it's", .integer 2]) ()).1 =
      .ok (some [[.integer 7, .text "it's"]]) := by
  have htokens : tokenize "<sql>" ("SELECT ?, " ++ "?" ++ " FROM t WHERE a < ?") =
      .ok ([⟨.kwSelect, "SELECT", ⟨0, 6, 1⟩⟩, ⟨.question, "?", ⟨7, 1, 1⟩⟩,
          ⟨.comma, ",", ⟨8, 1, 1⟩⟩] ++
        ⟨.question, "?", ⟨10, 1, 1⟩⟩ :: [⟨.kwFrom, "FROM", ⟨12, 4, 1⟩⟩, ⟨.ident, "t", ⟨17, 1, 1⟩⟩,
          ⟨.kwWhere, "WHERE", ⟨19, 5, 1⟩⟩, ⟨.ident, "a", ⟨25, 1, 1⟩⟩, ⟨.lt, "<", ⟨27, 1, 1⟩⟩,
          ⟨.question, "?", ⟨29, 1, 1⟩⟩, ⟨.eof, "", ⟨30, 0, 1⟩⟩]) := by
    decide +kernel
  have hprepared : (Cursor.prepare (backend oneTable) .empty .default
      ("SELECT ?, " ++ "?" ++ " FROM t WHERE a < ?") ()).toOption.isSome = true ∧
      (Cursor.prepare (backend oneTable) .empty .default
        ("SELECT ?, " ++ " " ++ (Value.text "it's").literal ++ " " ++ " FROM t WHERE a < ?")
        ()).toOption.isSome = true := by
    decide +kernel
  cases hc : Cursor.prepare (backend oneTable) .empty .default
      ("SELECT ?, " ++ "?" ++ " FROM t WHERE a < ?") () with
  | error e =>
    rw [hc] at hprepared
    cases hprepared.1
  | ok c =>
    cases hc' : Cursor.prepare (backend oneTable) .empty .default
        ("SELECT ?, " ++ " " ++ (Value.text "it's").literal ++ " " ++ " FROM t WHERE a < ?") () with
    | error e =>
      rw [hc'] at hprepared
      cases hprepared.2
    | ok c' =>
      have hsame := query_literal (v := .text "it's") trivial htokens rfl (by decide)
        (Params.inserted_ofList [.integer 7] (.text "it's") [.integer 2]) hc hc'
      have htext : "SELECT ?, " ++ "?" ++ " FROM t WHERE a < ?" =
          "SELECT ?, ? FROM t WHERE a < ?" := by
        decide
      have htext' : "SELECT ?, " ++ " " ++ (Value.text "it's").literal ++ " " ++
          " FROM t WHERE a < ?" = "SELECT ?,  'it''s'  FROM t WHERE a < ?" := by
        decide
      rw [htext, htext'] at hsame
      exact ⟨hsame, by decide +kernel⟩

end Memory

end SelectEngine
