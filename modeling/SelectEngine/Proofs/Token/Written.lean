import SelectEngine.Proofs.Token.Reads

/-!
# Tokens that are written out

`TokenForm kind text cs` lists the ways to write a token: a keyword in any letter case, a bare name,
a name or a text between quotes, digits, and the marks. `Joined ts cs` says that `cs` is made of
tokens written one behind the other with a blank and any gap between them. Such a text is read as
exactly these tokens (`tokenize_joined`).
-/

set_option autoImplicit false

namespace SelectEngine

/-- The spellings of punctuation and operators. -/
def TokenKind.marks : List (TokenKind × String) :=
  [(lparen, "("), (rparen, ")"), (semicolon, ";"), (comma, ","), (dot, "."), (plus, "+"),
    (minus, "-"), (star, "*"), (slash, "/"), (percent, "%"), (question, "?"), (eq, "="),
    (ne, "!="), (ne, "<>"), (lt, "<"), (gt, ">"), (le, "<="), (ge, ">="), (pipe, "|"),
    (concat, "||")]

/-- The characters spell the keyword in any letter case. -/
def SpellsKeyword (cs : List Char) (kind : TokenKind) : Prop :=
  kind ∈ TokenKind.keywords ∧ cs.map Char.toUpper = kind.label.toList

/-- A way to write a token of the kind with the text. -/
inductive TokenForm : TokenKind → List Char → List Char → Prop
  | keyword {kind : TokenKind} {cs : List Char} (h : SpellsKeyword cs kind) : TokenForm kind cs cs
  | name {c : Char} {cs : List Char} (hc : isWordStart c = true)
      (hcs : ∀ d ∈ cs, isWordRest d = true) (hno : ∀ kind, ¬SpellsKeyword (c :: cs) kind) :
      TokenForm .ident (c :: cs) (c :: cs)
  | quoted (text : List Char) : TokenForm .quotedIdent text ('"' :: (doubled '"' text ++ ['"']))
  | bracketed {text : List Char} (h : ']' ∉ text) :
      TokenForm .quotedIdent text ('[' :: (text ++ [']']))
  | string (text : List Char) : TokenForm .string text ('\'' :: (doubled '\'' text ++ ['\'']))
  | whole {d : Char} {ds : List Char} (h : ∀ c ∈ d :: ds, c.isDigit = true) :
      TokenForm .number (d :: ds) (d :: ds)
  | decimal {d e : Char} {ds es : List Char} (h : ∀ c ∈ d :: ds, c.isDigit = true)
      (he : ∀ c ∈ e :: es, c.isDigit = true) :
      TokenForm .number (d :: ds ++ '.' :: e :: es) (d :: ds ++ '.' :: e :: es)
  | mark {kind : TokenKind} {cs : List Char} (h : (kind, String.ofList cs) ∈ TokenKind.marks) :
      TokenForm kind cs cs

/-- A blank and behind it any mix of blanks and closed comments. -/
inductive Separator : List Char → Prop
  | mk {c : Char} {g : List Char} (hc : isBlank c = true) (hg : Gap False g) : Separator (c :: g)

/-- The tokens are written one behind the other with separators between them. -/
inductive Joined : List (TokenKind × List Char) → List Char → Prop
  | nil : Joined [] []
  | last {kind : TokenKind} {text cs : List Char} (h : TokenForm kind text cs) :
      Joined [(kind, text)] cs
  | cons {kind : TokenKind} {text cs separator rest : List Char} {t : TokenKind × List Char}
      {ts : List (TokenKind × List Char)} (h : TokenForm kind text cs)
      (hseparator : Separator separator) (later : Joined (t :: ts) rest) :
      Joined ((kind, text) :: t :: ts) (cs ++ (separator ++ rest))

/-! ## Forms are spellings -/

theorem isAlpha_of_toUpper {c : Char} (h : c.toUpper.isAlpha = true) : c.isAlpha = true := by
  by_cases hlower : 'a'.val ≤ c.val ∧ c.val ≤ 'z'.val
  · have hsmall : c.isLower = true :=
      Bool.and_eq_true_iff.mpr ⟨decide_eq_true hlower.1, decide_eq_true hlower.2⟩
    exact Bool.or_eq_true_iff.mpr (Or.inr hsmall)
  · have hstay : c.toUpper = c := dif_neg hlower
    rwa [hstay] at h

theorem SpellsKeyword.keyword? {cs : List Char} {kind : TokenKind} (h : SpellsKeyword cs kind) :
    TokenKind.keyword? (String.ofList cs) = some kind := by
  obtain ⟨hkind, hcs⟩ := h
  have hfound : ∀ kind ∈ TokenKind.keywords,
      (TokenKind.keywords.find? fun k => k.label == kind.label) = some kind := by decide
  rw [TokenKind.keyword?, Text.raiseCase, String.toList_ofList, hcs, String.ofList_toList]
  exact hfound kind hkind

theorem spellsKeyword_of_keyword? {cs : List Char} {kind : TokenKind}
    (h : TokenKind.keyword? (String.ofList cs) = some kind) : SpellsKeyword cs kind := by
  refine ⟨TokenKind.keyword?_mem h, ?_⟩
  have hlabel := List.find?_some h
  rw [beq_iff_eq, Text.raiseCase, String.toList_ofList] at hlabel
  rw [hlabel, String.toList_ofList]

/-- The letters of a keyword are the characters of a bare word. -/
theorem SpellsKeyword.spelling {cs : List Char} {kind : TokenKind} (h : SpellsKeyword cs kind) :
    Spelling kind cs cs := by
  have hletters : ∀ kind ∈ TokenKind.keywords, kind.label.toList ≠ [] ∧
      kind.label.toList.all Char.isAlpha = true := by decide
  obtain ⟨hne, hall⟩ := hletters kind h.1
  have hstart : ∀ c ∈ cs, isWordStart c = true := by
    intro c hc
    have hupper : c.toUpper ∈ kind.label.toList := h.2 ▸ List.mem_map_of_mem hc
    simp [isWordStart, isAlpha_of_toUpper (List.all_eq_true.mp hall _ hupper)]
  cases cs with
  | nil => exact absurd h.2.symm hne
  | cons c cs =>
    have hword := Spelling.word (hstart c List.mem_cons_self)
      fun d hd => isWordRest_of_isWordStart (hstart d (List.mem_cons_of_mem c hd))
    rwa [h.keyword?, Option.getD_some] at hword

theorem TokenForm.spelling {kind : TokenKind} {text cs : List Char} (h : TokenForm kind text cs) :
    Spelling kind text cs := by
  cases h with
  | keyword h => exact h.spelling
  | @name c cs hc hcs hno =>
    have hword := Spelling.word hc hcs
    have hnone : TokenKind.keyword? (String.ofList (c :: cs)) = none :=
      Option.eq_none_iff_forall_ne_some.mpr fun kind hkind =>
        hno kind (spellsKeyword_of_keyword? hkind)
    rwa [hnone, Option.getD_none] at hword
  | quoted text => exact .quoted text
  | bracketed h => exact .bracketed h
  | string text => exact .string text
  | whole h => exact .whole h
  | decimal h he => exact .decimal h he
  | mark h =>
    have hsymbol : ∀ mark ∈ TokenKind.marks,
        Scan.symbol? mark.2.toList = some (mark.1, mark.2.toList.length) := by decide
    have hcs := hsymbol _ h
    rw [String.toList_ofList] at hcs
    exact .symbol hcs

/-! ## Reading what is written -/

theorem Separator.gap {separator : List Char} (h : Separator separator) : Gap False separator := by
  cases h with
  | mk hc hg => exact .blank hc hg

theorem Separator.apart {separator rest : List Char} (h : Separator separator) :
    Apart (separator ++ rest) := by
  cases h with
  | mk hc hg =>
    rintro d ⟨⟩
    exact hc

/-- Behind a gap the tokens of a joined text are read up to its end. -/
theorem Joined.reads {ts : List (TokenKind × List Char)} {cs : List Char} (h : Joined ts cs) :
    ∀ {g : List Char} {s : Scan}, Gap False g → s.rest = g ++ cs →
      ∃ tokens stop, s.Reads tokens stop ∧ Gap True stop.rest ∧
        tokens.map (fun t => (t.kind, t.text)) = ts.map fun t => (t.1, String.ofList t.2) := by
  induction h with
  | nil =>
    intro g s hg hs
    refine ⟨[], s, .refl s, ?_, rfl⟩
    rw [hs, List.append_nil]
    exact hg.mono False.elim
  | @last kind text cs h =>
    intro g s hg hs
    have hrest : Apart [] := nofun
    rw [← List.append_nil cs] at hs
    obtain ⟨t, past, hkind, htext, hpast, hreads⟩ :=
      Scan.reads_of_lexeme hs hg (h.spelling.noGap hrest) (h.spelling.lexeme hrest)
    refine ⟨[t], past, hreads (.refl past), hpast ▸ .nil, ?_⟩
    rw [List.map_singleton, hkind, htext]
    rfl
  | @cons kind text cs separator rest t ts h hseparator later ih =>
    intro g s hg hs
    have hrest : Apart (separator ++ rest) := hseparator.apart
    obtain ⟨first, past, hkind, htext, hpast, hreads⟩ :=
      Scan.reads_of_lexeme hs hg (h.spelling.noGap hrest) (h.spelling.lexeme hrest)
    obtain ⟨tokens, stop, hlater, hend, htokens⟩ := ih hseparator.gap hpast
    exact ⟨first :: tokens, stop, hreads hlater, hend, by
      rw [List.map_cons, hkind, htext, htokens]; rfl⟩

/-- Reading undoes writing: a text made of tokens with separators between them is read as exactly
these tokens and the end of the text. -/
theorem tokenize_joined (source : String) {ts : List (TokenKind × List Char)} {cs : List Char}
    (h : Joined ts cs) :
    ∃ tokens, tokenize source (String.ofList cs) = .ok tokens ∧
      tokens.map (fun t => (t.kind, t.text)) =
        ts.map (fun t => (t.1, String.ofList t.2)) ++ [(.eof, "")] := by
  have hs : (Scan.ofText (String.ofList cs)).rest = [] ++ cs := String.toList_ofList
  obtain ⟨tokens, stop, hreads, hend, htokens⟩ := h.reads .nil hs
  obtain ⟨t, hfinishes, htext⟩ := Scan.finishes_of_gap hend
  refine ⟨tokens ++ [t], ?_, ?_⟩
  · rw [tokenize, Scan.drain_of_reads hreads hfinishes]
  · rw [List.map_append, htokens, List.map_singleton, Scan.kind_of_finishes hfinishes, htext]

/-- A name with a quote in it, an operator behind a comment with a line break, and a keyword. -/
theorem tokenize_joined_quoted :
    ∃ tokens, tokenize "<sql>" "\"a\"\"b\" --/*\n<> Null" = .ok tokens ∧
      tokens.map (fun t => (t.kind, t.text)) =
        [(.quotedIdent, "a\"b"), (.ne, "<>"), (.kwNull, "Null"), (.eof, "")] := by
  have hcomment : Separator (' ' :: '-' :: '-' :: (['/', '*'] ++ '\n' :: [])) :=
    .mk rfl (.line (Or.inl rfl) (by simp [isLineEnd]) (Or.inl rfl) .nil)
  have hjoined : Joined
      [(.quotedIdent, ['a', '"', 'b']), (.ne, ['<', '>']), (.kwNull, ['N', 'u', 'l', 'l'])] _ :=
    .cons (.quoted _) hcomment (.cons (.mark (by decide)) (.mk (c := ' ') rfl .nil)
      (.last (.keyword ⟨by decide, by decide⟩)))
  exact tokenize_joined "<sql>" hjoined

end SelectEngine
