import SelectEngine.Proofs.Grammar.Literal
import SelectEngine.Proofs.Plan.Agreement
import SelectEngine.Proofs.Token.Replaced

/-!
# Texts that differ in a mark and a literal

Two texts are read as the same tokens but for one place, where the one has a mark and the other a
literal. Then the statement of the other is that of the one with the literal in place of the
parameter (`Tree.ReadAs.statement_eq`), all other leaves have the same texts
(`Tree.ReadAs.word_eq_of_leaf`), and the parameters behind the mark move up by one
(`Tree.ReadAs.params_eq`).
-/

set_option autoImplicit false

namespace SelectEngine

open Grammar

/-! ## Marks -/

/-- The number of marks among tokens. -/
def markCount (ts : List Token) : Nat := ts.countP fun t => t.kind == .question

theorem length_marks_numbered (n : Nat) (ts : List Token) :
    (marks (numbered n ts)).length = markCount ts := by
  induction ts generalizing n with
  | nil => rfl
  | cons t ts ih =>
    rw [numbered, ← List.singleton_append, marks_append, List.length_append, ih, markCount,
      markCount, List.countP_cons, Nat.add_comm]
    by_cases hkind : t.kind = .question
    · simp [marks, hkind]
    · simp [marks, hkind]

/-- A parameter of the list is found behind another one or in front of it. -/
theorem idxOf_middle {front back : List TokenId} {k leaf : TokenId}
    (h : (front ++ k :: back).Nodup) (hleaf : leaf ∈ front ++ k :: back) :
    leaf = k ∧ (front ++ k :: back).idxOf leaf = front.length ∨
      leaf ≠ k ∧ ∃ n, (front ++ back).idxOf leaf = n ∧
        (n < front.length ∧ (front ++ k :: back).idxOf leaf = n ∨
          front.length ≤ n ∧ (front ++ k :: back).idxOf leaf = n + 1) := by
  have hk : k ∉ front := fun hmem => (List.nodup_append.mp h).2.2 k hmem k List.mem_cons_self rfl
  by_cases heq : leaf = k
  · subst heq
    exact Or.inl ⟨rfl, by rw [List.idxOf_append_of_notMem hk, List.idxOf_cons_self, Nat.add_zero]⟩
  · refine Or.inr ⟨heq, _, rfl, ?_⟩
    by_cases hfront : leaf ∈ front
    · rw [List.idxOf_append_of_mem hfront, List.idxOf_append_of_mem hfront]
      exact Or.inl ⟨List.idxOf_lt_length_of_mem hfront, rfl⟩
    · rw [List.idxOf_append_of_notMem hfront, List.idxOf_append_of_notMem hfront,
        List.idxOf_cons_ne _ (Ne.symm heq)]
      exact Or.inr ⟨Nat.le_add_right _ _, rfl⟩

/-! ## Tokens -/

theorem numbered_congr {ts ts' : List Token} (h : ts'.map Token.kind = ts.map Token.kind) (n : Nat) :
    numbered n ts' = numbered n ts := by
  rw [numbered_eq_zipIdx, numbered_eq_zipIdx, h]

theorem kinds_of_contents {ts ts' : List Token} (h : ts'.map Token.content = ts.map Token.content) :
    ts'.map Token.kind = ts.map Token.kind := by
  have hkinds := congrArg (List.map Prod.fst) h
  rwa [List.map_map, List.map_map] at hkinds

theorem kind_of_mem_numbered {ts : List Token} {n : Nat} {kind : TokenKind} {leaf : TokenId}
    (h : (kind, leaf) ∈ numbered n ts) :
    ∃ i, leaf = n + i ∧ ts[i]?.map Token.kind = some kind := by
  induction ts generalizing n with
  | nil => cases h
  | cons t ts ih =>
    rcases List.mem_cons.mp h with heq | hlater
    · cases heq
      exact ⟨0, rfl, rfl⟩
    · obtain ⟨i, rfl, hkind⟩ := ih hlater
      exact ⟨i + 1, by rw [Nat.add_right_comm, Nat.add_assoc], hkind⟩

/-- What is read does not depend on the name of the source. -/
theorem Scan.drain_source {source : String} {s : Scan} {ts : List Token}
    (h : s.drain source = (ts, none)) (other : String) : s.drain other = (ts, none) := by
  obtain ⟨front, stop, hreads, ⟨t, hfinishes, rfl, -⟩ | ⟨e, -, -, hnone⟩⟩ := reads_of_drain h
  · exact drain_of_reads hreads hfinishes
  · cases hnone

theorem drain_of_tokenize {source text : String} {ts : List Token}
    (h : tokenize source text = .ok ts) (other : String) :
    (Scan.ofText text).drain other = (ts, none) := by
  unfold tokenize at h
  split at h
  · next hdrain =>
    cases h
    exact Scan.drain_source hdrain other
  · cases h

/-- The texts of tokens that are the same but for one place. -/
theorem getElem?_text {ts us ts' us' : List Token} {t t' : Token}
    (hts : ts'.map Token.content = ts.map Token.content)
    (hus : us'.map Token.content = us.map Token.content) {i : Nat} (hi : i ≠ ts.length) :
    (ts' ++ t' :: us')[i]?.map Token.text = (ts ++ t :: us)[i]?.map Token.text := by
  have htexts : ∀ {ts ts' : List Token}, ts'.map Token.content = ts.map Token.content →
      ts'.map Token.text = ts.map Token.text := by
    intro ts ts' h
    have htext := congrArg (List.map Prod.snd) h
    rwa [List.map_map, List.map_map] at htext
  have hset : (ts' ++ t' :: us').map Token.text =
      ((ts ++ t :: us).map Token.text).set ts.length t'.text := by
    rw [List.map_append, List.map_append, List.map_cons, List.map_cons, htexts hts, htexts hus,
      ← List.length_map (f := Token.text), List.set_append_right _ _ (Nat.le_refl _), Nat.sub_self,
      List.set_cons_zero]
  rw [← List.getElem?_map, ← List.getElem?_map, hset, List.getElem?_set_ne (Ne.symm hi)]

theorem getElem?_text_self {ts us : List Token} {t : Token} :
    (ts ++ t :: us)[ts.length]?.map Token.text = some t.text := by
  rw [List.getElem?_append_right (Nat.le_refl _), Nat.sub_self]
  rfl

/-! ## Statements -/

namespace Tree.ReadAs

variable {tree tree' : Tree} {settings : ReadSettings} {text text' : String}
  {s : Statement (Fin tree.tokens.size)} {s' : Statement (Fin tree'.tokens.size)}
  {ts us ts' us' : List Token} {t t' : Token}

theorem word_eq (h : tree.ReadAs settings text ts s) (leaf : TokenId) :
    tree.word leaf = (ts[leaf]?.map Token.text).getD "" := by
  rw [Tree.word, Tree.textOf, h.tokens, List.getElem?_toArray]

/-- The expression put in place of the parameter with the leaf. -/
def replacing (k : TokenId) (e : Expr TokenId) (leaf : TokenId) : Expr TokenId :=
  if leaf = k then e else .param leaf

/-- With a literal in place of a mark the text is read as the statement with the literal in place of
the parameter. -/
theorem statement_eq (h : tree.ReadAs settings text (ts ++ t :: us) s)
    (h' : tree'.ReadAs settings text' (ts' ++ t' :: us') s') (hkind : t.kind = .question)
    (hts : ts'.map Token.content = ts.map Token.content)
    (hus : us'.map Token.content = us.map Token.content) {e : Expr TokenId}
    (hliteral : literal? t'.kind ts.length = some e) :
    s'.map Fin.val = (s.map Fin.val).graft id (replacing ts.length e) := by
  have hrun := h.run
  have hrun' := h'.run
  have hlength : ts'.length = ts.length := by
    rw [← List.length_map (f := Token.content), hts, List.length_map]
  rw [numbered_append, numbered, hkind, Nat.zero_add] at hrun
  rw [numbered_append, numbered, numbered_congr (kinds_of_contents hts), hlength,
    numbered_congr (kinds_of_contents hus), Nat.zero_add] at hrun'
  -- The tokens are the same, and only the leaf of the mark is given an expression.
  have hrelabel : ∀ tokens : List (TokenKind × TokenId), tokens.map (Stage.relabel id) = tokens :=
    fun tokens => List.map_id' tokens
  have hother : ∀ {token : TokenKind × TokenId}, token.2 ≠ ts.length →
      replacing ts.length e token.2 = .param (id token.2) := fun hne => if_neg hne
  have hhere : literal? t'.kind (id ts.length) = some (replacing ts.length e ts.length) := by
    rw [replacing, if_pos rfl]
    exact hliteral
  have hgrafted := Stage.run_literal id (replacing ts.length e)
    (fun token htoken _ => hother ?_) (fun token htoken _ => hother ?_) hhere Stage.start hrun
  · rw [hrelabel, hrelabel] at hgrafted
    exact Outcome.accepted.inj (Option.some.inj (hrun'.symm.trans hgrafted))
  · -- In front of the mark the numbers are smaller.
    obtain ⟨i, hi, hsome⟩ := kind_of_mem_numbered htoken
    obtain ⟨found, hfound, -⟩ := Option.map_eq_some_iff.mp hsome
    rw [hi, Nat.zero_add]
    exact Nat.ne_of_lt (List.getElem?_eq_some_iff.mp hfound).1
  · -- Behind it they are greater.
    obtain ⟨i, hi, -⟩ := kind_of_mem_numbered htoken
    rw [hi, Nat.add_assoc]
    exact Nat.ne_of_gt (Nat.lt_add_of_pos_right (by rw [Nat.add_comm]; exact Nat.succ_pos i))

/-- A leaf that is not a parameter has the same text in both. -/
theorem word_eq_of_leaf (h : tree.ReadAs settings text (ts ++ t :: us) s)
    (h' : tree'.ReadAs settings text' (ts' ++ t' :: us') s') (hkind : t.kind = .question)
    (hts : ts'.map Token.content = ts.map Token.content)
    (hus : us'.map Token.content = us.map Token.content) {leaf : Leaf TokenId}
    (hleaf : leaf ∈ (s.map Fin.val).leaves) (hne : leaf.1 ≠ .param) :
    tree'.word leaf.2 = tree.word leaf.2 := by
  have hleaves : (s.map Fin.val).leaves = Stage.start.leavesOf (numbered 0 (ts ++ t :: us)) :=
    Stage.leaves_run h.run
  rw [hleaves] at hleaf
  obtain ⟨kind, hmem, hparam⟩ := Stage.exists_token_of_leaf h.run hleaf
  obtain ⟨i, hi, hsome⟩ := kind_of_mem_numbered hmem
  rw [Nat.zero_add] at hi
  -- The token of the mark is a mark, and the leaf of a mark is a parameter.
  have hplace : leaf.2 ≠ ts.length := by
    intro heq
    rw [← hi, heq, List.getElem?_append_right (Nat.le_refl _), Nat.sub_self] at hsome
    have hquestion : t.kind = kind := Option.some.inj hsome
    exact hne (hparam (hquestion.symm.trans hkind))
  rw [h.word_eq, h'.word_eq, getElem?_text hts hus hplace]

/-- The leaf of the mark has the text of the literal. -/
theorem word_mark (h' : tree'.ReadAs settings text' (ts' ++ t' :: us') s')
    (hts : ts'.map Token.content = ts.map Token.content) : tree'.word ts.length = t'.text := by
  have hlength : ts'.length = ts.length := by
    rw [← List.length_map (f := Token.content), hts, List.length_map]
  rw [h'.word_eq, ← hlength, getElem?_text_self]
  rfl

/-- The parameter with the mark is the one behind those in front of it, and the parameters behind it
move up by one. -/
theorem params_eq (h : tree.ReadAs settings text (ts ++ t :: us) s)
    (h' : tree'.ReadAs settings text' (ts' ++ t' :: us') s') (hkind : t.kind = .question)
    (hkind' : t'.kind ≠ .question) (hts : ts'.map Token.content = ts.map Token.content)
    (hus : us'.map Token.content = us.map Token.content) :
    ∃ front back, front.length = markCount ts ∧
      (s.map Fin.val).params = front ++ ts.length :: back ∧
      (s'.map Fin.val).params = front ++ back := by
  have hlength : ts'.length = ts.length := by
    rw [← List.length_map (f := Token.content), hts, List.length_map]
  refine ⟨marks (numbered 0 ts), marks (numbered (ts.length + 1) us), length_marks_numbered 0 ts,
    ?_, ?_⟩
  · rw [h.params, numbered_append, numbered, Nat.zero_add, marks_append, ← List.singleton_append,
      marks_append]
    simp [marks, hkind]
  · rw [h'.params, numbered_append, numbered, Nat.zero_add, marks_append, ← List.singleton_append,
      marks_append, numbered_congr (kinds_of_contents hts), hlength,
      numbered_congr (kinds_of_contents hus)]
    simp [marks, hkind']

end Tree.ReadAs

end SelectEngine
