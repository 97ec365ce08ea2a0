import SelectEngine.Proofs.Alike.Binding
import SelectEngine.Proofs.Grammar.FirstFault
import SelectEngine.Proofs.Plan.Agreement
import SelectEngine.Proofs.Tree.Literal

/-!
# Texts in another layout and letter case are read alike

Two texts have the same tokens if these agree in their kinds and in their texts but for the letter
case of keywords and names. The grammar reads the kinds alone, so both texts have one statement or
none (`parse_alike`), and its leaves stand for the same words (`Tree.ReadAs.sameWords`). So the plans
of both mean the same but for the letter case of names, or both texts have none for the same variant
of failure (`Plan.ofText_alike`).
-/

set_option autoImplicit false

namespace SelectEngine

open Grammar Text

/-! ## Tokens -/

namespace Token

/-- The tokens are of one kind, and have one text but for the letter case of a keyword or a name.
Where they stand does not matter. -/
structure Alike (t t' : Token) : Prop where
  kind : t.kind = t'.kind
  text : t.text = t'.text ∨
    (t.kind.isKeyword = true ∨ t.kind.isName = true) ∧ sameName t.text t'.text = true

instance (t t' : Token) : Decidable (t.Alike t') :=
  decidable_of_iff (t.kind = t'.kind ∧ (t.text = t'.text ∨
      (t.kind.isKeyword = true ∨ t.kind.isName = true) ∧ sameName t.text t'.text = true))
    ⟨fun h => ⟨h.1, h.2⟩, fun h => ⟨h.kind, h.text⟩⟩

variable {t t' : Token}

theorem Alike.foldCase_eq (h : t.Alike t') : foldCase t.text = foldCase t'.text := by
  rcases h.text with htext | ⟨-, hname⟩
  · rw [htext]
  · exact (sameName_iff _ _).mp hname

/-- The text of a literal is kept to the letter. -/
theorem Alike.text_eq (h : t.Alike t') (hliteral : t.kind = .string ∨ t.kind = .number) :
    t.text = t'.text := by
  rcases h.text with htext | ⟨hkind, -⟩
  · exact htext
  · rcases hliteral with hstring | hnumber
    · rw [hstring] at hkind
      exact absurd hkind (by decide)
    · rw [hnumber] at hkind
      exact absurd hkind (by decide)

end Token

section

variable {ts ts' : List Token}

theorem kinds_of_alike (h : List.Forall₂ Token.Alike ts ts') :
    ts'.map Token.kind = ts.map Token.kind := by
  induction h with
  | nil => rfl
  | cons ht _ ih => rw [List.map_cons, List.map_cons, ht.kind, ih]

theorem getElem?_alike (h : List.Forall₂ Token.Alike ts ts') {i : Nat} {t : Token}
    (ht : ts[i]? = some t) : ∃ t', ts'[i]? = some t' ∧ t.Alike t' := by
  induction h generalizing i with
  | nil => cases ht
  | cons hfirst _ ih =>
    cases i with
    | zero =>
      cases ht
      exact ⟨_, rfl, hfirst⟩
    | succ i => exact ih ht

end

/-! ## Statements -/

variable {settings : ReadSettings} {text text' : String} {ts ts' : List Token}

namespace Tree.ReadAs

variable {tree tree' : Tree} {s : Statement (Fin tree.tokens.size)}
  {s' : Statement (Fin tree'.tokens.size)}

/-- The statement of a text depends on the kinds of its tokens alone. -/
theorem statement_eq_of_kinds (h : tree.ReadAs settings text ts s)
    (h' : tree'.ReadAs settings text' ts' s') (hkinds : ts'.map Token.kind = ts.map Token.kind) :
    s'.map Fin.val = s.map Fin.val := by
  have hrun := h'.run
  rw [numbered_congr hkinds, h.run] at hrun
  exact (Outcome.accepted.inj (Option.some.inj hrun)).symm

/-- A leaf of a statement that is an operand or a part of a name stands for a token of that kind. -/
theorem exists_token_of_leaf (h : tree.ReadAs settings text ts s) {leaf : Leaf TokenId}
    (hleaf : leaf ∈ (s.map Fin.val).leaves) (hne : leaf.1 ≠ .token) :
    ∃ t, ts[leaf.2]? = some t ∧ operandType? t.kind = some leaf.1 := by
  have hleaves : (s.map Fin.val).leaves = Stage.start.leavesOf (numbered 0 ts) :=
    Stage.leaves_run h.run
  rw [hleaves] at hleaf
  obtain ⟨kind, hmem, hoperand⟩ := Stage.exists_operand_of_leaf hleaf hne
  obtain ⟨i, hi, hkind⟩ := kind_of_mem_numbered hmem
  obtain ⟨t, ht, rfl⟩ := Option.map_eq_some_iff.mp hkind
  rw [Nat.zero_add] at hi
  exact ⟨t, hi ▸ ht, hoperand⟩

/-- The leaves of the statement of two texts with the same tokens stand for the same words. -/
theorem sameWords (h : tree.ReadAs settings text ts s) (h' : tree'.ReadAs settings text' ts' s')
    (hts : List.Forall₂ Token.Alike ts ts') :
    (s.map Fin.val).SameWords tree.word tree'.word := by
  have hleaf {leaf : Leaf TokenId} (hleaf : leaf ∈ (s.map Fin.val).leaves) (hne : leaf.1 ≠ .token) :
      ∃ t t' : Token, tree.word leaf.2 = t.text ∧ tree'.word leaf.2 = t'.text ∧ t.Alike t' ∧
        operandType? t.kind = some leaf.1 := by
    obtain ⟨t, ht, hoperand⟩ := h.exists_token_of_leaf hleaf hne
    obtain ⟨t', ht', halike⟩ := getElem?_alike hts ht
    refine ⟨t, t', ?_, ?_, halike, hoperand⟩
    · rw [h.word_eq, ht]
      rfl
    · rw [h'.word_eq, ht']
      rfl
  constructor
  · intro leaf hmem
    obtain ⟨t, t', hword, hword', halike, -⟩ := hleaf hmem nofun
    rw [hword, hword', halike.foldCase_eq]
  · intro leaf hmem
    obtain ⟨t, t', hword, hword', halike, hoperand⟩ := hleaf hmem nofun
    have hstring : t.kind = .string := by
      cases hkind : t.kind <;> rw [hkind] at hoperand <;> first | rfl | cases hoperand
    rw [hword, hword', halike.text_eq (Or.inl hstring)]
  · intro leaf hmem
    obtain ⟨t, t', hword, hword', halike, hoperand⟩ := hleaf hmem nofun
    have hnumber : t.kind = .number := by
      cases hkind : t.kind <;> rw [hkind] at hoperand <;> first | rfl | cases hoperand
    rw [hword, hword', halike.text_eq (Or.inr hnumber)]

end Tree.ReadAs

/-! ## Texts -/

/-- Texts whose tokens are of the same kinds both parse, or both are refused for a token. -/
theorem parse_alike (hlength : text.utf8ByteSize ≤ settings.maxLength)
    (hlength' : text'.utf8ByteSize ≤ settings.maxLength)
    (hdrain : (Scan.ofText text).drain settings.sourceName = (ts, none))
    (hdrain' : (Scan.ofText text').drain settings.sourceName = (ts', none))
    (hkinds : ts'.map Token.kind = ts.map Token.kind) :
    Outcome.Alike (fun _ _ => True) (parse settings text) (parse settings text') := by
  -- A refused token ends no beginning of a sentence.
  have hrefused {front : List Token} {t : Token} {back : List Token}
      (hends : ¬Viable ((front ++ [t]).map Token.kind)) :
      ¬Sentence ((front ++ t :: back).map Token.kind) := by
    intro hsentence
    rw [← List.singleton_append, ← List.append_assoc, List.map_append] at hsentence
    exact hends hsentence.viable.of_append
  rcases parse_cases hlength hdrain with
    ⟨e, hnone, -⟩ | ⟨front, t, back, rfl, -, hends, hparse⟩ | ⟨-, hsentence, tree, hparse⟩
  · cases hnone
  · rcases parse_cases hlength' hdrain' with
      ⟨e, hnone, -⟩ | ⟨front', t', back', rfl, -, -, hparse'⟩ | ⟨-, hsentence', -⟩
    · cases hnone
    · rw [hparse, hparse']
      exact .error rfl
    · rw [hkinds] at hsentence'
      exact absurd hsentence' (hrefused hends)
  · rcases parse_cases hlength' hdrain' with
      ⟨e, hnone, -⟩ | ⟨front', t', back', rfl, -, hends', -⟩ | ⟨-, -, tree', hparse'⟩
    · cases hnone
    · rw [← hkinds] at hsentence
      exact absurd hsentence (hrefused hends')
    · rw [hparse, hparse']
      exact .ok trivial

/-- Texts with the same tokens have plans that mean the same but for the letter case of names, or
none for the same variant of failure. -/
theorem Plan.ofText_alike {settings : Settings} (catalog : Memory.Catalog) (registry : Registry)
    (hlength : text.utf8ByteSize ≤ settings.reading.maxLength)
    (hlength' : text'.utf8ByteSize ≤ settings.reading.maxLength)
    (hdrain : (Scan.ofText text).drain settings.reading.sourceName = (ts, none))
    (hdrain' : (Scan.ofText text').drain settings.reading.sourceName = (ts', none))
    (hts : List.Forall₂ Token.Alike ts ts') :
    Outcome.Alike (fun plan plan' => plan.meaning.folded = plan'.meaning.folded)
      (ofText catalog registry settings text) (ofText catalog registry settings text') := by
  have hkinds := kinds_of_alike hts
  rw [ofText, ofText]
  rcases (parse_alike hlength hlength' hdrain hdrain' hkinds).cases with
    ⟨tree, tree', htree, htree', -⟩ | ⟨e, e', htree, htree', he⟩
  · obtain ⟨all, s, hread⟩ := Tree.exists_readAs_of_parse htree
    obtain ⟨all', s', hread'⟩ := Tree.exists_readAs_of_parse htree'
    obtain rfl : all = ts := congrArg Prod.fst (hread.drain.symm.trans hdrain)
    obtain rfl : all' = ts' := congrArg Prod.fst (hread'.drain.symm.trans hdrain')
    have hplan := meaning_ofTree hread.holds hread.nodup_params catalog registry settings
    have hplan' := meaning_ofTree hread'.holds hread'.nodup_params catalog registry settings
    rw [hread.statement_eq_of_kinds hread' hkinds] at hplan'
    have hmeaning := Statement.meaning_alike (hread.sameWords hread' hts) catalog registry settings
    rw [← hplan, ← hplan'] at hmeaning
    rw [htree, htree']
    exact hmeaning.of_map
  · rw [htree, htree']
    exact .error he

end SelectEngine
