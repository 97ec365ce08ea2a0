import Mathlib.Data.List.TakeWhile
import SelectEngine.Token.Scan

/-!
# Spellings of tokens

`Spelling kind text cs` says that a token of a kind with a text may be written as the characters
`cs`. A spelling with a blank or nothing behind it is read as its token (`Scan.next_of_spelling`).
Whatever else may stand behind the characters without being read with them is told by
`SpelledBefore`.
-/

set_option autoImplicit false

namespace SelectEngine

/-- The characters with each quote doubled. -/
def doubled (quote : Char) : List Char → List Char
  | [] => []
  | c :: cs => if c = quote then quote :: quote :: doubled quote cs else c :: doubled quote cs

/-- A token of the kind with the text is written as the characters. -/
inductive Spelling : TokenKind → List Char → List Char → Prop
  /-- A keyword or a bare name. -/
  | word {c : Char} {cs : List Char} (hc : isWordStart c = true)
      (hcs : ∀ d ∈ cs, isWordRest d = true) :
      Spelling ((TokenKind.keyword? (String.ofList (c :: cs))).getD .ident) (c :: cs) (c :: cs)
  | quoted (text : List Char) : Spelling .quotedIdent text ('"' :: (doubled '"' text ++ ['"']))
  | bracketed {text : List Char} (h : ']' ∉ text) :
      Spelling .quotedIdent text ('[' :: (text ++ [']']))
  | string (text : List Char) : Spelling .string text ('\'' :: (doubled '\'' text ++ ['\'']))
  | whole {d : Char} {ds : List Char} (h : ∀ c ∈ d :: ds, c.isDigit = true) :
      Spelling .number (d :: ds) (d :: ds)
  | decimal {d e : Char} {ds es : List Char} (h : ∀ c ∈ d :: ds, c.isDigit = true)
      (he : ∀ c ∈ e :: es, c.isDigit = true) :
      Spelling .number (d :: ds ++ '.' :: e :: es) (d :: ds ++ '.' :: e :: es)
  | symbol {kind : TokenKind} {cs : List Char} (h : Scan.symbol? cs = some (kind, cs.length)) :
      Spelling kind cs cs

/-- A blank or nothing: what keeps the token before it apart from the next one. -/
def Apart (rest : List Char) : Prop := ∀ c ∈ rest.head?, isBlank c = true

/-- The characters are a lexeme in front of `rest`: a token of the kind with the text is read from
them. They spell it, and reading does not go on into `rest`. -/
inductive SpelledBefore (rest : List Char) : TokenKind → List Char → List Char → Prop
  | word {c : Char} {cs : List Char} (hc : isWordStart c = true)
      (hcs : ∀ d ∈ cs, isWordRest d = true) (hend : ∀ d ∈ rest.head?, isWordRest d = false) :
      SpelledBefore rest ((TokenKind.keyword? (String.ofList (c :: cs))).getD .ident) (c :: cs)
        (c :: cs)
  | quoted {text : List Char} (hend : rest.head? ≠ some '"') :
      SpelledBefore rest .quotedIdent text ('"' :: (doubled '"' text ++ ['"']))
  | bracketed {text : List Char} (h : ']' ∉ text) :
      SpelledBefore rest .quotedIdent text ('[' :: (text ++ [']']))
  | string {text : List Char} (hend : rest.head? ≠ some '\'') :
      SpelledBefore rest .string text ('\'' :: (doubled '\'' text ++ ['\'']))
  | whole {d : Char} {ds : List Char} (h : ∀ c ∈ d :: ds, c.isDigit = true)
      (hend : ∀ c ∈ rest.head?, c.isDigit = false)
      (hpoint : ∀ c t, rest = '.' :: c :: t → c.isDigit = false) :
      SpelledBefore rest .number (d :: ds) (d :: ds)
  | decimal {d e : Char} {ds es : List Char} (h : ∀ c ∈ d :: ds, c.isDigit = true)
      (he : ∀ c ∈ e :: es, c.isDigit = true) (hend : ∀ c ∈ rest.head?, c.isDigit = false) :
      SpelledBefore rest .number (d :: ds ++ '.' :: e :: es) (d :: ds ++ '.' :: e :: es)
  | symbol {kind : TokenKind} {cs : List Char}
      (h : Scan.symbol? (cs ++ rest) = some (kind, cs.length)) : SpelledBefore rest kind cs cs

namespace Scan

variable {source : String} {s : Scan} {rest : List Char}

/-! ## Runs of characters -/

theorem isBlank_cases {c : Char} (h : isBlank c = true) :
    c = ' ' ∨ c = '\t' ∨ c = '\n' ∨ c = '\x0c' ∨ c = '\r' := by
  simpa [isBlank, or_assoc] using h

/-- What holds of no blank does not hold behind a token. -/
theorem head_of_apart {p : Char → Bool} (h : Apart rest)
    (hp : p ' ' = false ∧ p '\t' = false ∧ p '\n' = false ∧ p '\x0c' = false ∧ p '\r' = false) :
    ∀ c ∈ rest.head?, p c = false := by
  intro c hc
  obtain ⟨h1, h2, h3, h4, h5⟩ := hp
  rcases isBlank_cases (h c hc) with rfl | rfl | rfl | rfl | rfl
  · exact h1
  · exact h2
  · exact h3
  · exact h4
  · exact h5

theorem dropWhile_of_head {p : Char → Bool} (h : ∀ c ∈ rest.head?, p c = false) :
    rest.dropWhile p = rest := by
  cases rest with
  | nil => rfl
  | cons c cs => simp [h c rfl]

theorem takeWhile_of_head {p : Char → Bool} (h : ∀ c ∈ rest.head?, p c = false) :
    rest.takeWhile p = [] := by
  cases rest with
  | nil => rfl
  | cons c cs => simp [h c rfl]

theorem takeWhile_run {p : Char → Bool} {run : List Char} (hrun : ∀ c ∈ run, p c = true)
    (hrest : ∀ c ∈ rest.head?, p c = false) : (run ++ rest).takeWhile p = run := by
  rw [List.takeWhile_append_of_pos hrun, takeWhile_of_head hrest, List.append_nil]

theorem dropWhile_run {p : Char → Bool} {run : List Char} (hrun : ∀ c ∈ run, p c = true)
    (hrest : ∀ c ∈ rest.head?, p c = false) : (run ++ rest).dropWhile p = rest := by
  rw [List.dropWhile_append_of_pos hrun, dropWhile_of_head hrest]

/-- A place at which nothing is to be skipped stays. -/
theorem skip_of_head {p : Char → Bool} (h : ∀ c ∈ s.rest.head?, p c = false) : s.skip p = s := by
  obtain ⟨cs, offset, line⟩ := s
  cases cs with
  | nil => rfl
  | cons c cs =>
    have hc : p c = false := h c rfl
    simp [skip, skipWhile, hc]

/-- A character that is skipped may be left out. -/
theorem skip_of_pos {p : Char → Bool} {c : Char} {cs : List Char} (h : s.rest = c :: cs)
    (hc : p c = true) : s.skip p = s.advance.skip p := by
  obtain ⟨_, offset, line⟩ := s
  subst h
  simp [skip, skipWhile, advance, hc]

/-! ## Quoted runs -/

/-- What is read up to the next quote. -/
theorem quotedText_step {quote c : Char} {cs acc : List Char}
    (h : (s.skip (· != quote)).rest = c :: cs) :
    quotedText quote s acc =
      if (s.skip (· != quote)).advance.rest.head? = some quote then
        quotedText quote (s.skip (· != quote)).advance.advance
          (quote :: ((s.rest.takeWhile (· != quote)).reverse ++ acc))
      else (some ((s.rest.takeWhile (· != quote)).reverse ++ acc).reverse,
        (s.skip (· != quote)).advance) := by
  rw [quotedText]
  split
  · next h' => cases h.symm.trans h'
  · rfl

/-- A character other than the quote is read. -/
theorem quotedText_of_ne {quote c : Char} {cs acc : List Char} (h : s.rest = c :: cs)
    (hc : c ≠ quote) (hquote : quote ∈ cs) :
    quotedText quote s acc = quotedText quote s.advance (c :: acc) := by
  have hp : (c != quote) = true := bne_iff_ne.mpr hc
  have hadvance : s.advance.rest = cs := by rw [rest_advance, h, List.tail_cons]
  have hskip : s.skip (· != quote) = s.advance.skip (· != quote) := skip_of_pos h hp
  -- A quote is still ahead, so both sides read up to the same one.
  have hfound : (s.advance.skip (· != quote)).rest ≠ [] := by
    rw [rest_skip, hadvance]
    intro hnil
    have hall := List.dropWhile_eq_nil_iff.mp hnil quote hquote
    simp at hall
  obtain ⟨q, others, hq⟩ := List.exists_cons_of_ne_nil hfound
  have hread : s.rest.takeWhile (· != quote) = c :: s.advance.rest.takeWhile (· != quote) := by
    rw [h, hadvance]
    exact List.takeWhile_cons_of_pos hp
  rw [quotedText_step hq, quotedText_step (hskip ▸ hq), hskip, hread, List.reverse_cons,
    List.append_assoc, List.singleton_append]

/-- At a quote nothing is read but the quote. -/
theorem quotedText_of_eq {quote : Char} {cs acc : List Char} (h : s.rest = quote :: cs) :
    quotedText quote s acc =
      if cs.head? = some quote then quotedText quote s.advance.advance (quote :: acc)
      else (some acc.reverse, s.advance) := by
  have hhead : ∀ c ∈ s.rest.head?, (c != quote) = false := by
    intro c hc
    rw [h] at hc
    cases hc
    exact bne_self_eq_false quote
  have hskip : s.skip (· != quote) = s := skip_of_head hhead
  rw [quotedText_step (hskip.symm ▸ h), hskip, takeWhile_of_head hhead, rest_advance, h]
  rfl

/-- A quoted text is read back. -/
theorem quotedText_doubled {quote : Char} (hend : rest.head? ≠ some quote) :
    ∀ (text acc : List Char) {s : Scan}, s.rest = doubled quote text ++ quote :: rest →
      ∃ past, quotedText quote s acc = (some (acc.reverse ++ text), past) ∧ past.rest = rest
  | [], acc, s, h => by
    refine ⟨s.advance, ?_, by rw [rest_advance, h]; rfl⟩
    rw [quotedText_of_eq h, if_neg hend, List.append_nil]
  | c :: text, acc, s, h => by
    have hread : (c :: acc).reverse ++ text = acc.reverse ++ c :: text := by simp
    by_cases hc : c = quote
    · subst hc
      rw [doubled, if_pos rfl] at h
      -- A quote in the text is written twice, and the pair is read as one.
      have hlater : s.advance.advance.rest = doubled c text ++ c :: rest := by
        rw [rest_advance, rest_advance, h]
        rfl
      obtain ⟨past, hrun, hrest⟩ := quotedText_doubled hend text (c :: acc) hlater
      refine ⟨past, ?_, hrest⟩
      have hquote : s.rest = c :: c :: (doubled c text ++ c :: rest) := h
      rw [quotedText_of_eq hquote, List.head?_cons, if_pos rfl, hrun, hread]
    · rw [doubled, if_neg hc] at h
      -- Any other character stands for itself.
      have hlater : s.advance.rest = doubled quote text ++ quote :: rest := by
        rw [rest_advance, h]
        rfl
      obtain ⟨past, hrun, hrest⟩ := quotedText_doubled hend text (c :: acc) hlater
      refine ⟨past, ?_, hrest⟩
      rw [quotedText_of_ne h hc (by simp), hrun, hread]

/-! ## Tokens -/

theorem token_quote {cs : List Char} (h : s.rest = '\'' :: cs) :
    s.token source = s.quoted source .string '\'' "string literal" := by
  rw [token, h]
  rfl

theorem token_doubleQuote {cs : List Char} (h : s.rest = '"' :: cs) :
    s.token source = s.quoted source .quotedIdent '"' "quoted identifier" := by
  rw [token, h]
  rfl

theorem token_bracket {cs : List Char} (h : s.rest = '[' :: cs) :
    s.token source = s.bracketed source := by
  rw [token, h]
  rfl

theorem token_digit {d : Char} {cs : List Char} (h : s.rest = d :: cs) (hd : d.isDigit = true) :
    s.token source = (.ok s.numeral.1, s.numeral.2) := by
  have h1 : d ≠ '\'' := by rintro rfl; exact absurd hd (by decide)
  have h2 : d ≠ '"' := by rintro rfl; exact absurd hd (by decide)
  have h3 : d ≠ '[' := by rintro rfl; exact absurd hd (by decide)
  rw [token, h]
  simp only [h1, h2, h3, hd, if_false, if_true]

/-- A quoted run is read between its quotes. -/
theorem quoted_apply {kind : TokenKind} {quote : Char} {what : String} (text : List Char)
    (hend : rest.head? ≠ some quote)
    (h : s.rest = quote :: (doubled quote text ++ [quote]) ++ rest) :
    ∃ past, s.quoted source kind quote what = (.ok (s.tokenTo past kind text), past) ∧
      past.rest = rest := by
  have hbody : s.advance.rest = doubled quote text ++ quote :: rest := by
    rw [rest_advance, h]
    simp
  obtain ⟨past, hrun, hpast⟩ := quotedText_doubled hend text [] hbody
  refine ⟨past, ?_, hpast⟩
  rw [quoted, hrun]
  rfl

/-- A name between brackets is read as it stands. -/
theorem bracketed_apply {text : List Char} (htext : ']' ∉ text)
    (h : s.rest = '[' :: (text ++ [']']) ++ rest) :
    ∃ past, s.bracketed source = (.ok (s.tokenTo past .quotedIdent text), past) ∧
      past.rest = rest := by
  have hbody : s.advance.rest = text ++ ']' :: rest := by
    rw [rest_advance, h]
    simp
  have hrun : ∀ c ∈ text, (c != ']') = true := fun c hc =>
    bne_iff_ne.mpr fun heq => htext (heq ▸ hc)
  have hhead : ∀ c ∈ (']' :: rest).head?, (c != ']') = false := by
    intro c hc
    cases hc
    rfl
  have hskip : (s.advance.skip (· != ']')).rest = ']' :: rest := by
    rw [rest_skip, hbody]
    exact dropWhile_run hrun hhead
  have hread : s.advance.rest.takeWhile (· != ']') = text := by
    rw [hbody]
    exact takeWhile_run hrun hhead
  refine ⟨(s.advance.skip (· != ']')).advance, ?_, by rw [rest_advance, hskip]; rfl⟩
  rw [bracketed]
  simp only [hskip, hread]

theorem numeral_whole {ds : List Char} (hds : ∀ c ∈ ds, c.isDigit = true)
    (hend : ∀ c ∈ rest.head?, c.isDigit = false)
    (hpoint : ∀ c t, rest = '.' :: c :: t → c.isDigit = false) (h : s.rest = ds ++ rest) :
    s.numeral = (s.tokenTo (s.skip Char.isDigit) .number ds, s.skip Char.isDigit) ∧
      (s.skip Char.isDigit).rest = rest := by
  have hskip : (s.skip Char.isDigit).rest = rest := by
    rw [rest_skip, h]
    exact dropWhile_run hds hend
  have hread : s.rest.takeWhile Char.isDigit = ds := by
    rw [h]
    exact takeWhile_run hds hend
  refine ⟨?_, hskip⟩
  unfold numeral
  dsimp only
  rw [hread]
  split
  · next hrest =>
    rw [hskip] at hrest
    rw [if_neg (Bool.eq_false_iff.mp (hpoint _ _ hrest))]
  · rfl

theorem numeral_decimal {ds es : List Char} {e : Char} (hds : ∀ c ∈ ds, c.isDigit = true)
    (hes : ∀ c ∈ e :: es, c.isDigit = true) (hend : ∀ c ∈ rest.head?, c.isDigit = false)
    (h : s.rest = ds ++ '.' :: e :: es ++ rest) :
    ∃ past, s.numeral = (s.tokenTo past .number (ds ++ '.' :: e :: es), past) ∧
      past.rest = rest := by
  have hpoint : ∀ c ∈ ('.' :: e :: es ++ rest).head?, c.isDigit = false := by
    intro c hc
    cases hc
    rfl
  rw [List.append_assoc] at h
  have hskip : (s.skip Char.isDigit).rest = '.' :: e :: (es ++ rest) := by
    rw [rest_skip, h]
    exact dropWhile_run hds hpoint
  have hread : s.rest.takeWhile Char.isDigit = ds := by
    rw [h]
    exact takeWhile_run hds hpoint
  -- Behind the point the digits go on up to the end of the spelling.
  have hbehind : (s.skip Char.isDigit).advance.rest = (e :: es) ++ rest := by
    rw [rest_advance, hskip]
    rfl
  have hfraction : (s.skip Char.isDigit).advance.rest.takeWhile Char.isDigit = e :: es := by
    rw [hbehind]
    exact takeWhile_run hes hend
  refine ⟨(s.skip Char.isDigit).advance.skip Char.isDigit, ?_, ?_⟩
  · unfold numeral
    dsimp only
    rw [hread]
    simp only [hskip, hfraction, hes e List.mem_cons_self, if_true]
  · rw [rest_skip, hbehind]
    exact dropWhile_run hes hend

theorem word_apply {w : List Char} (hw : ∀ c ∈ w, isWordRest c = true)
    (hend : ∀ c ∈ rest.head?, isWordRest c = false) (h : s.rest = w ++ rest) :
    s.word = (s.tokenTo (s.skip isWordRest) ((TokenKind.keyword? (String.ofList w)).getD .ident) w,
        s.skip isWordRest) ∧
      (s.skip isWordRest).rest = rest := by
  have hread : s.rest.takeWhile isWordRest = w := by
    rw [h]
    exact takeWhile_run hw hend
  refine ⟨?_, ?_⟩
  · rw [word, hread]
  · rw [rest_skip, h]
    exact dropWhile_run hw hend

theorem isDigit_of_isWordStart {c : Char} (h : isWordStart c = true) : c.isDigit = false := by
  refine Bool.eq_false_iff.mpr fun hdigit => ?_
  obtain ⟨hlow, hhigh⟩ := Char.isDigit_iff_toNat.mp hdigit
  -- Digits are 48 to 57. The capital letters start at 65, the small ones at 97, and the underscore
  -- is 95.
  have h0 : '0'.toNat = 48 := rfl
  have h9 : '9'.toNat = 57 := rfl
  delta isWordStart Char.isAlpha Char.isUpper Char.isLower at h
  simp only [Bool.or_eq_true, Bool.and_eq_true, decide_eq_true_eq, UInt32.le_iff_toNat_le,
    Char.toNat_val, beq_iff_eq] at h
  rcases h with ((⟨hupper, -⟩ | ⟨hlower, -⟩) | rfl) | hfar
  · have hA : 'A'.toNat = 65 := rfl
    omega
  · have ha : 'a'.toNat = 97 := rfl
    omega
  · exact absurd hhigh (by decide)
  · omega

theorem token_word {c : Char} {cs : List Char} (h : s.rest = c :: cs)
    (hc : isWordStart c = true) : s.token source = (.ok s.word.1, s.word.2) := by
  have h1 : c ≠ '\'' := by rintro rfl; exact absurd hc (by decide)
  have h2 : c ≠ '"' := by rintro rfl; exact absurd hc (by decide)
  have h3 : c ≠ '[' := by rintro rfl; exact absurd hc (by decide)
  rw [token, h]
  simp only [h1, h2, h3, isDigit_of_isWordStart hc, hc, if_false, if_true, Bool.false_eq_true]

/-! ## Symbols -/

/-- The characters that may start a symbol. -/
def symbolStarts : List Char :=
  ['(', ')', ';', ',', '.', '+', '-', '*', '/', '%', '?', '=', '!', '<', '>', '|']

theorem mem_symbolStarts {c : Char} {cs : List Char} {found : TokenKind × Nat}
    (h : symbol? (c :: cs) = some found) : c ∈ symbolStarts := by
  unfold symbol? at h
  split at h <;> first | (rename_i heq; cases heq; decide) | cases h

theorem symbol?_append {cs : List Char} {kind : TokenKind}
    (h : symbol? cs = some (kind, cs.length)) (hrest : Apart rest) :
    symbol? (cs ++ rest) = some (kind, cs.length) := by
  rcases cs with _ | ⟨c, _ | ⟨d, _ | ⟨e, cs⟩⟩⟩
  · cases h
  · -- A second character could only have been one that is no blank.
    have hmem := mem_symbolStarts h
    rcases rest with _ | ⟨b, rest⟩
    · exact h
    · rw [← h]
      simp only [symbolStarts, List.mem_cons, List.not_mem_nil, or_false] at hmem
      rcases isBlank_cases (hrest b rfl) with rfl | rfl | rfl | rfl | rfl <;>
        rcases hmem with rfl | rfl | rfl | rfl | rfl | rfl | rfl | rfl | rfl | rfl | rfl | rfl |
          rfl | rfl | rfl | rfl <;> rfl
  · unfold symbol? at h
    split at h <;> first | (cases h; rename_i heq; cases heq; rfl) | cases h
  · unfold symbol? at h
    split at h <;> cases h

theorem token_symbol {cs : List Char} {kind : TokenKind}
    (h : symbol? (cs ++ rest) = some (kind, cs.length)) (hs : s.rest = cs ++ rest) :
    s.token source = (.ok (s.tokenTo (advanceBy cs.length s) kind cs), advanceBy cs.length s) ∧
      (advanceBy cs.length s).rest = rest := by
  have hdrop : ∀ (n : Nat) (s : Scan), (advanceBy n s).rest = s.rest.drop n := by
    intro n
    induction n with
    | zero => exact fun s => rfl
    | succ n ih =>
      intro s
      rw [advanceBy, ih, rest_advance, List.drop_tail]
  refine ⟨?_, by rw [hdrop, hs, List.drop_left]⟩
  rcases cs with _ | ⟨c, cs⟩
  · exact absurd (symbol?_pos h).1 (Nat.lt_irrefl 0)
  · have hmem := mem_symbolStarts h
    have hplain : c ≠ '\'' ∧ c ≠ '"' ∧ c ≠ '[' ∧ c.isDigit = false ∧ isWordStart c = false := by
      have hall : symbolStarts.all fun c =>
          decide (c ≠ '\'' ∧ c ≠ '"' ∧ c ≠ '[' ∧ c.isDigit = false ∧ isWordStart c = false) := by
        decide
      exact of_decide_eq_true (List.all_eq_true.mp hall c hmem)
    obtain ⟨h1, h2, h3, h4, h5⟩ := hplain
    rw [List.cons_append] at hs h
    rw [token, hs]
    simp only [h1, h2, h3, h4, h5, h, if_false, Bool.false_eq_true]
    rw [← List.cons_append, List.take_left]

/-! ## Gaps -/

/-- Neither a blank nor a comment starts here. -/
structure NoGap (cs : List Char) : Prop where
  blank : ∀ c ∈ cs.head?, isBlank c = false
  dashes : ∀ t, cs ≠ '-' :: '-' :: t
  slashes : ∀ t, cs ≠ '/' :: '/' :: t
  opening : ∀ t, cs ≠ '/' :: '*' :: t

/-- Blanks are skipped. -/
theorem skipGap_of_blanks (source : String) {blanks cs : List Char}
    (hblanks : ∀ c ∈ blanks, isBlank c = true) (hcs : NoGap cs) (h : s.rest = blanks ++ cs) :
    s.skipGap source = (none, s.skip isBlank) ∧ (s.skip isBlank).rest = cs := by
  have hskip : (s.skip isBlank).rest = cs := by
    rw [rest_skip, h]
    exact dropWhile_run hblanks hcs.blank
  refine ⟨?_, hskip⟩
  rw [skipGap]
  split
  · next t ht => exact absurd (hskip.symm.trans ht) (hcs.dashes t)
  · next t ht => exact absurd (hskip.symm.trans ht) (hcs.slashes t)
  · next t ht => exact absurd (hskip.symm.trans ht) (hcs.opening t)
  · rfl

end Scan

theorem Scan.NoGap.of_head {c : Char} {cs : List Char} (hblank : isBlank c = false)
    (hdash : c ≠ '-') (hslash : c ≠ '/') : Scan.NoGap (c :: cs) where
  blank d hd := by
    cases hd
    exact hblank
  dashes t h := hdash (List.cons.inj h).1
  slashes t h := hslash (List.cons.inj h).1
  opening t h := hslash (List.cons.inj h).1

theorem isBlank_of_isWordRest {c : Char} (h : isWordRest c = true) : isBlank c = false := by
  refine Bool.eq_false_iff.mpr fun hblank => ?_
  rcases Scan.isBlank_cases hblank with rfl | rfl | rfl | rfl | rfl <;> exact absurd h (by decide)

theorem Scan.NoGap.of_word {c : Char} {cs : List Char} (h : isWordRest c = true) :
    Scan.NoGap (c :: cs) :=
  .of_head (isBlank_of_isWordRest h) (by rintro rfl; exact absurd h (by decide))
    (by rintro rfl; exact absurd h (by decide))

theorem isWordRest_of_isWordStart {c : Char} (h : isWordStart c = true) : isWordRest c = true := by
  simp [isWordRest, h]

theorem isWordRest_of_isDigit {c : Char} (h : c.isDigit = true) : isWordRest c = true := by
  simp [isWordRest, h]

theorem Scan.NoGap.of_symbol {cs rest : List Char} {kind : TokenKind}
    (h : Scan.symbol? cs = some (kind, cs.length)) (hrest : Apart rest) :
    Scan.NoGap (cs ++ rest) := by
  rcases cs with _ | ⟨c, cs⟩
  · cases h
  · have hmem := Scan.mem_symbolStarts h
    have hblank : (Scan.symbolStarts.all fun c => !isBlank c) = true := by decide
    -- A dash or a slash is a symbol of its own, and the next character is no dash, slash or star.
    have halone : c = '-' ∨ c = '/' → cs = [] := by
      rintro (rfl | rfl) <;> exact (by simpa [Scan.symbol?] using h : _ ∧ cs = []).2
    have hnext : ∀ {d : Char} {t : List Char}, isBlank d = false → cs ++ rest = d :: t →
        ¬(c = '-' ∨ c = '/') := by
      intro d t hd ht hc
      rw [halone hc, List.nil_append] at ht
      rw [hrest d (by rw [ht]; rfl)] at hd
      cases hd
    constructor
    · intro d hd
      cases hd
      simpa using List.all_eq_true.mp hblank c hmem
    · intro t ht
      obtain ⟨rfl, hrest'⟩ := List.cons.inj ht
      exact hnext (d := '-') rfl hrest' (Or.inl rfl)
    · intro t ht
      obtain ⟨rfl, hrest'⟩ := List.cons.inj ht
      exact hnext (d := '/') rfl hrest' (Or.inr rfl)
    · intro t ht
      obtain ⟨rfl, hrest'⟩ := List.cons.inj ht
      exact hnext (d := '*') rfl hrest' (Or.inr rfl)

/-- Where a spelling starts there is no gap. -/
theorem Spelling.noGap {kind : TokenKind} {text cs rest : List Char} (h : Spelling kind text cs)
    (hrest : Apart rest) : Scan.NoGap (cs ++ rest) := by
  cases h with
  | word hc hcs => exact .of_word (isWordRest_of_isWordStart hc)
  | quoted text => exact .of_head (by decide) (by decide) (by decide)
  | bracketed h => exact .of_head (by decide) (by decide) (by decide)
  | string text => exact .of_head (by decide) (by decide) (by decide)
  | whole h => exact .of_word (isWordRest_of_isDigit (h _ List.mem_cons_self))
  | decimal h he => exact .of_word (isWordRest_of_isDigit (h _ List.mem_cons_self))
  | symbol h => exact .of_symbol h hrest

/-- What is kept apart from the text behind it is read by itself. -/
theorem Spelling.lexeme {kind : TokenKind} {text cs rest : List Char} (h : Spelling kind text cs)
    (hrest : Apart rest) : SpelledBefore rest kind text cs := by
  -- A quote behind the closing one would be read with it, but a blank stands there or nothing.
  have hend : ∀ quote, isBlank quote = false → rest.head? ≠ some quote := by
    intro quote hquote hhead
    rw [hrest quote hhead] at hquote
    cases hquote
  have hdigit := Scan.head_of_apart (p := Char.isDigit) hrest (by decide)
  cases h with
  | word hc hcs => exact .word hc hcs (Scan.head_of_apart hrest (by decide))
  | quoted text => exact .quoted (hend '"' (by decide))
  | bracketed h => exact .bracketed h
  | string text => exact .string (hend '\'' (by decide))
  | whole h => exact .whole h hdigit fun c t ht => absurd (by rw [ht]; rfl) (hend '.' (by decide))
  | decimal h he => exact .decimal h he hdigit
  | symbol h => exact .symbol (Scan.symbol?_append h hrest)

/-- At a lexeme its token is read. -/
theorem Scan.token_of_lexeme (source : String) {s : Scan} {kind : TokenKind}
    {text cs rest : List Char} (h : SpelledBefore rest kind text cs) (hs : s.rest = cs ++ rest) :
    ∃ past, s.token source = (.ok (s.tokenTo past kind text), past) ∧ past.rest = rest := by
  cases h with
  | word hc hcs hend =>
    obtain ⟨hword, hpast⟩ :=
      word_apply (List.forall_mem_cons.mpr ⟨isWordRest_of_isWordStart hc, hcs⟩) hend hs
    exact ⟨_, by rw [token_word hs hc, hword], hpast⟩
  | quoted hend =>
    rw [token_doubleQuote hs]
    exact quoted_apply text hend hs
  | bracketed h =>
    rw [token_bracket hs]
    exact bracketed_apply h hs
  | string hend =>
    rw [token_quote hs]
    exact quoted_apply text hend hs
  | whole h hend hpoint =>
    obtain ⟨hnumeral, hpast⟩ := numeral_whole h hend hpoint hs
    exact ⟨_, by rw [token_digit hs (h _ List.mem_cons_self), hnumeral], hpast⟩
  | decimal h he hend =>
    obtain ⟨past, hnumeral, hpast⟩ := numeral_decimal h he hend hs
    exact ⟨past, by rw [token_digit hs (h _ List.mem_cons_self), hnumeral], hpast⟩
  | symbol h =>
    obtain ⟨htoken, hpast⟩ := token_symbol h hs
    exact ⟨_, htoken, hpast⟩

/-- A spelling behind blanks is read as its token. -/
theorem Scan.next_of_spelling (source : String) {s : Scan} {kind : TokenKind}
    {text cs blanks rest : List Char} (h : Spelling kind text cs) (hrest : Apart rest)
    (hblanks : ∀ c ∈ blanks, isBlank c = true) (hs : s.rest = blanks ++ (cs ++ rest)) :
    ∃ t past, s.next source = (.ok t, past) ∧ t.kind = kind ∧ t.text = String.ofList text ∧
      past.rest = rest := by
  obtain ⟨hgap, hstart⟩ := skipGap_of_blanks source hblanks (h.noGap hrest) hs
  obtain ⟨past, htoken, hpast⟩ := token_of_lexeme source (h.lexeme hrest) hstart
  refine ⟨(s.skip isBlank).tokenTo past kind text, past, ?_, rfl, rfl, hpast⟩
  rw [next, hgap]
  exact htoken

/-- Behind the last token the end of the text is read. -/
theorem Scan.next_of_blanks (source : String) {s : Scan} (h : ∀ c ∈ s.rest, isBlank c = true) :
    ∃ t past, s.next source = (.ok t, past) ∧ t.kind = .eof ∧ t.text = "" ∧ past.rest = [] := by
  have hcs : Scan.NoGap [] := ⟨nofun, nofun, nofun, nofun⟩
  have hs : s.rest = s.rest ++ [] := (List.append_nil _).symm
  obtain ⟨hgap, hstart⟩ := skipGap_of_blanks source h hcs hs
  refine ⟨(s.skip isBlank).tokenTo (s.skip isBlank) .eof [], s.skip isBlank, ?_, rfl, rfl, hstart⟩
  rw [next, hgap]
  show token source (s.skip isBlank) = _
  rw [token, hstart]

end SelectEngine
