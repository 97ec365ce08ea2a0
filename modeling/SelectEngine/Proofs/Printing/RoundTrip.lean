import SelectEngine.Proofs.Automaton.Parse
import SelectEngine.Proofs.Printing.Reading
import SelectEngine.Proofs.Printing.Spelled
import SelectEngine.Proofs.Tree.Shape

/-!
# Parsing printed statements

Parsing undoes printing: a statement that is printed and parsed again gives a tree of its own shape
(`parse_print`). The tokens of the printed text are those it was printed from, these are read as the
statement, and the reader does the same with the numbers of tokens as with their texts.
-/

set_option autoImplicit false

namespace SelectEngine

/-! ## Tokens of a printed text -/

theorem Scan.symbol?_ne_eof {cs : List Char} {kind : TokenKind} {n : Nat}
    (h : Scan.symbol? cs = some (kind, n)) : kind ≠ .eof := by
  unfold Scan.symbol? at h
  split at h <;> cases h <;> exact nofun

/-- The end of the text has no spelling. -/
theorem Spelling.ne_eof {kind : TokenKind} {text cs : List Char} (h : Spelling kind text cs) :
    kind ≠ .eof := by
  cases h with
  | @word c cs hc hcs =>
    cases hkind : TokenKind.keyword? (String.ofList (c :: cs)) with
    | none => exact nofun
    | some keyword =>
      have hmem : keyword ∈ TokenKind.keywords := List.mem_of_find?_eq_some hkind
      rintro rfl
      exact absurd hmem (by decide)
  | symbol h => exact Scan.symbol?_ne_eof h
  | quoted | bracketed | string | whole | decimal => exact nofun

/-- A token is printed before a gap that keeps it apart from the others. -/
theorem spellAll_cons (token : Lexeme) (rest : List Lexeme) :
    ∃ gap, spellAll (token :: rest) = token.spell ++ (gap ++ spellAll rest) ∧
      (∀ c ∈ gap, isBlank c = true) ∧ Apart (gap ++ spellAll rest) := by
  cases rest with
  | nil => exact ⟨[], by simp [spellAll], nofun, nofun⟩
  | cons next rest =>
    have hblank : isBlank ' ' = true := by decide
    refine ⟨[' '], rfl, List.forall_mem_singleton.mpr hblank, ?_⟩
    intro c hc
    cases hc
    exact hblank

/-- The tokens of a printed text are those that it was printed from, and the end of the text. -/
theorem Scan.drain_spellAll {source : String} {tokens : List Lexeme}
    (htokens : ∀ token ∈ tokens, token.Spelled) {s : Scan} {blanks : List Char}
    (hblanks : ∀ c ∈ blanks, isBlank c = true) (hs : s.rest = blanks ++ spellAll tokens) :
    ∃ ts, s.drain source = (ts, none) ∧
      (ts.map fun t => (t.kind, t.text)) = tokens ++ [(.eof, "")] := by
  induction tokens generalizing s blanks with
  | nil =>
    have hrest : ∀ c ∈ s.rest, isBlank c = true := by
      rw [hs, spellAll, List.append_nil]
      exact hblanks
    obtain ⟨t, past, hnext, hkind, htext, -⟩ := next_of_blanks source hrest
    refine ⟨[t], drain_of_eof hnext hkind, ?_⟩
    simp [hkind, htext]
  | cons token tokens ih =>
    obtain ⟨hfirst, hothers⟩ := List.forall_mem_cons.mp htokens
    obtain ⟨gap, hspell, hgap, hapart⟩ := spellAll_cons token tokens
    rw [hspell] at hs
    obtain ⟨t, past, hnext, hkind, htext, hpast⟩ :=
      next_of_spelling source hfirst hapart hblanks hs
    obtain ⟨ts, hdrain, hmap⟩ := ih hothers hgap hpast
    refine ⟨t :: ts, drain_of_ok hnext (hkind ▸ hfirst.ne_eof) hdrain, ?_⟩
    rw [List.map_cons, hmap, hkind, htext, String.ofList_toList, List.cons_append]

/-- Numbered tokens have the texts of the tokens at their numbers. -/
theorem map_numbered (front ts : List Token) :
    ((numbered front.length ts).map fun (kind, n) =>
      (kind, (front ++ ts).toArray[n]?.map Token.text)) =
      ts.map fun t => (t.kind, some t.text) := by
  induction ts generalizing front with
  | nil => rfl
  | cons t ts ih =>
    have htail := ih (front ++ [t])
    rw [List.length_append, List.length_singleton, List.append_assoc,
      List.singleton_append] at htail
    rw [numbered, List.map_cons, List.map_cons, htail]
    simp

/-! ## Parsing -/

/-- Reading the numbers of tokens that make a statement gives the statement of their numbers. -/
theorem Grammar.Stage.run_numbered {ts : List Token} {tokens : List Lexeme} {s : Statement String}
    (hts : (ts.map fun t => (t.kind, t.text)) = tokens)
    (hrun : Grammar.Stage.start.run tokens = some (.accepted s)) :
    ∃ st : Statement TokenId, Grammar.Stage.start.run (numbered 0 ts) = some (.accepted st) ∧
      st.map (fun n => ts.toArray[n]?.map Token.text) = s.map some := by
  -- Reading numbers and reading texts are both reading with relabelled leaves.
  have hnumbered := run_map (fun n => ts.toArray[n]?.map Token.text) .start (numbered 0 ts)
  have htexts := run_map some .start tokens
  have hsame : (ts.map fun t => (t.kind, some t.text)) =
      tokens.map fun (kind, text) => (kind, some text) := by
    rw [← hts, List.map_map]
    rfl
  have hlabels := map_numbered [] ts
  rw [List.length_nil, List.nil_append] at hlabels
  rw [hlabels, hsame] at hnumbered
  rw [hrun] at htexts
  have hmapped := hnumbered.symm.trans htexts
  cases hread : Grammar.Stage.start.run (numbered 0 ts) with
  | none =>
    rw [hread] at hmapped
    cases hmapped
  | some outcome =>
    rw [hread] at hmapped
    cases outcome with
    | more stage => cases hmapped
    | accepted st =>
      exact ⟨st, rfl, Grammar.Outcome.accepted.inj (Option.some.inj hmapped)⟩

/-- Parsing a printed statement gives a tree of the shape of the statement. -/
theorem parse_print {s : Statement String} (h : s.Printable) {settings : ReadSettings}
    (hlength : s.print.utf8ByteSize ≤ settings.maxLength) :
    ∃ tree, parse settings s.print = .ok tree ∧
      tree.shape = some (.group .root [s.shape some]) := by
  -- From the text to its tokens, from the tokens to the statement, and from there to the tree.
  have hstart : (Scan.ofText s.print).rest = [] ++ spellAll s.lexemes := String.toList_ofList
  have hblanks : ∀ c ∈ ([] : List Char), isBlank c = true := nofun
  obtain ⟨ts, hdrain, hts⟩ :
      ∃ ts, (Scan.ofText s.print).drain settings.sourceName = (ts, none) ∧
        (ts.map fun t => (t.kind, t.text)) = s.lexemes ++ [(.eof, "")] :=
    Scan.drain_spellAll (Statement.spelled_lexemes h) hblanks hstart
  obtain ⟨st, hrun, hmap⟩ := Grammar.Stage.run_numbered hts (Statement.run_lexemes h "")
  have hread : readStatement settings.sourceName (Scan.ofText s.print) .start #[] =
      .ok (st, #[] ++ ts.toArray) := readStatement_of_run hdrain hrun
  rw [Array.empty_append] at hread
  refine ⟨Tree.ofStatement settings.sourceName ts.toArray st, ?_, ?_⟩
  · rw [parse_eq, if_neg (Nat.not_lt.mpr hlength), hread]
    rfl
  · rw [Tree.shape_ofStatement]
    have hshape := Statement.shape_map (fun n => ts.toArray[n]?.map Token.text) id st
    rw [hmap, Statement.shape_map] at hshape
    rw [← Function.id_comp (fun token => ts.toArray[token]?.map Token.text), ← hshape]
    rfl

/-- A statement with a sum below a sign, a comparison below a negation and a test of a product. -/
def signedSum : Statement String where
  select := "SELECT"
  attributes :=
    [.value (.unary .neg (.binary .add (.name ["a"]) (.number "1.5"))) (some ⟨some "AS", "x\"y"⟩),
      .starOf ["t"] "*"]
  from_ := "FROM"
  sources := [⟨["s", "t"], some ⟨none, "t"⟩⟩, ⟨["u"], none⟩]
  restriction := some ⟨"WHERE",
    .binary .and (.unary .not (.binary .eq (.name ["t", "b"]) (.text "it's")))
      (.unary .isNotNull (.binary .mul (.name ["a"]) (.call "f" [.null "NULL", .param "?"])))⟩

theorem parse_print_signedSum :
    signedSum.Printable ∧ signedSum.print.utf8ByteSize ≤ ReadSettings.default.maxLength ∧
      ∃ tree, parse .default signedSum.print = .ok tree ∧
        tree.shape = some (.group .root [signedSum.shape some]) := by
  have hnumber : IsNumeral ['1', '.', '5'] := by
    show IsNumeral (['1'] ++ '.' :: ['5'])
    exact .decimal (List.forall_mem_singleton.mpr (by decide))
      (List.forall_mem_singleton.mpr (by decide))
  have hprintable : signedSum.Printable := by
    refine ⟨rfl, by simp [signedSum], ?_, rfl, by simp [signedSum], ?_, ?_⟩
    · simp [signedSum, Attribute.Printable, Expr.Printable, Naming.Printable, Operator.isUnary,
        hnumber]
    · simp [signedSum, FromItem.Printable, Naming.Printable]
    · simp [signedSum, Expr.Printable, Expr.AllPrintable, Operator.isUnary]
  have hlength : signedSum.print.utf8ByteSize ≤ ReadSettings.default.maxLength := by
    decide +kernel
  exact ⟨hprintable, hlength, parse_print hprintable hlength⟩

end SelectEngine
