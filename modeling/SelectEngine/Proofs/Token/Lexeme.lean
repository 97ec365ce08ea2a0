import SelectEngine.Proofs.Token.Passes

/-!
# What a token is read from

A token that `Scan.token` answers is a lexeme of the text: the scan passed over the characters that
spell it (`Scan.lexeme_of_token`). A failure covers the characters that it reports
(`Scan.fault_of_token`): an unterminated run starts at its delimiter and reaches to the end of the
text, and a character that starts no token is reported alone.
-/

set_option autoImplicit false

namespace SelectEngine

/-! ## Doubled quotes -/

theorem doubled_append (quote : Char) (front back : List Char) :
    doubled quote (front ++ back) = doubled quote front ++ doubled quote back := by
  induction front with
  | nil => rfl
  | cons c front ih =>
    by_cases hc : c = quote
    · simp [doubled, hc, ih]
    · simp [doubled, hc, ih]

theorem doubled_of_notMem {quote : Char} :
    ∀ {text : List Char}, quote ∉ text → doubled quote text = text
  | [], _ => rfl
  | c :: text, h => by
    have hc : c ≠ quote := fun heq => h (heq ▸ List.mem_cons_self)
    rw [doubled, if_neg hc, doubled_of_notMem fun hmem => h (List.mem_cons_of_mem c hmem)]

theorem notMem_takeWhile (quote : Char) (cs : List Char) :
    quote ∉ cs.takeWhile (· != quote) := by
  intro hmem
  have := List.mem_takeWhile_imp hmem
  simp at this

namespace Scan

variable {source : String} {s past : Scan} {t : Token} {e : Error} {c : Char} {cs : List Char}

/-! ## Runs up to a character -/

/-- A run is left at the first character that does not belong to it. -/
theorem head_skip (p : Char → Bool) (s : Scan) : ∀ c ∈ (s.skip p).rest.head?, p c = false := by
  intro c hc
  have hnot := List.head?_dropWhile_not p s.rest
  rwa [← rest_skip, Option.mem_def.mp hc] at hnot

/-- The character at which a run up to `stop` is left is `stop`. -/
theorem head_skip_ne {stop : Char} (h : (s.skip (· != stop)).rest = c :: cs) : c = stop := by
  have hhead := head_skip (· != stop) s c (by rw [h]; rfl)
  simpa using hhead

/-- A quoted run that is read stands doubled in front of its closing quote. -/
theorem passes_of_quotedText {quote : Char} {acc read : List Char}
    (h : quotedText quote s acc = (some read, past)) :
    ∃ text, read = acc.reverse ++ text ∧ s.Passes (doubled quote text ++ [quote]) past ∧
      past.rest.head? ≠ some quote := by
  fun_induction quotedText quote s acc with
  | case1 => cases h
  | case2 s acc c cs hfound behind read' hdouble _ ih =>
    -- A doubled quote belongs to the text, and the run goes on behind it.
    obtain rfl := head_skip_ne hfound
    obtain ⟨text, hread, hpast, hend⟩ := ih h
    obtain ⟨tail, hbehind⟩ : ∃ tail, behind.rest = c :: tail := by
      obtain ⟨d, tail, hd⟩ := List.exists_cons_of_ne_nil (l := behind.rest) (by
        intro hnil
        rw [hnil] at hdouble
        cases hdouble)
      rw [hd] at hdouble
      cases hdouble
      exact ⟨tail, hd⟩
    have hpair := ((Passes.skip (· != c) s).trans (.single hfound)).trans (.single hbehind)
    refine ⟨s.rest.takeWhile (· != c) ++ c :: text, ?_, ?_, hend⟩
    · rw [hread]
      simp [read']
    · have hall := hpair.trans hpast
      rw [doubled_append, doubled_of_notMem (notMem_takeWhile c s.rest), doubled, if_pos rfl]
      simpa using hall
  | case3 s acc c cs hfound behind read' hsingle =>
    obtain rfl := head_skip_ne hfound
    obtain ⟨hread, hpast⟩ := Prod.mk.inj h
    rw [← hpast, ← Option.some.inj hread]
    refine ⟨s.rest.takeWhile (· != c), by simp [read'], ?_, hsingle⟩
    rw [doubled_of_notMem (notMem_takeWhile c s.rest)]
    exact (Passes.skip (· != c) s).trans (.single hfound)

/-! ## Tokens -/

/-- The token that was read from here to `past` is a lexeme of the text. -/
def Lexed (s past : Scan) (t : Token) : Prop :=
  ∃ kind text cs, s.Passes cs past ∧ SpelledBefore past.rest kind text cs ∧
    t = s.tokenTo past kind text

theorem lexed_quoted {kind : TokenKind} {quote : Char} {what : String} (hs : s.rest = quote :: cs)
    (hkind : ∀ {rest text : List Char}, rest.head? ≠ some quote →
      SpelledBefore rest kind text (quote :: (doubled quote text ++ [quote])))
    (h : s.quoted source kind quote what = (.ok t, past)) : s.Lexed past t := by
  unfold quoted at h
  split at h
  · next text behind hread =>
    cases h
    obtain ⟨text, rfl, hpast, hend⟩ := passes_of_quotedText hread
    exact ⟨kind, text, _, .step hs hpast, hkind hend, rfl⟩
  · cases h

theorem lexed_bracketed (hs : s.rest = '[' :: cs) (h : s.bracketed source = (.ok t, past)) :
    s.Lexed past t := by
  unfold bracketed at h
  dsimp only at h
  split at h
  · cases h
  · next d ds hfound =>
    cases h
    obtain rfl := head_skip_ne hfound
    have hbody := (Passes.skip (· != ']') s.advance).trans (.single hfound)
    exact ⟨.quotedIdent, _, _, .step hs hbody, .bracketed (notMem_takeWhile ']' _), rfl⟩

theorem lexed_numeral (hs : s.rest = c :: cs) (hc : c.isDigit = true) :
    s.Lexed s.numeral.2 s.numeral.1 := by
  have hwhole := Passes.skip Char.isDigit s
  have hend := head_skip Char.isDigit s
  have hdigits : ∀ {cs : List Char}, ∀ d ∈ cs.takeWhile Char.isDigit, d.isDigit = true :=
    fun d hd => List.mem_takeWhile_imp hd
  obtain ⟨ds, hds⟩ : ∃ ds, s.rest.takeWhile Char.isDigit = c :: ds := by
    rw [hs]
    exact ⟨_, List.takeWhile_cons_of_pos hc⟩
  have hall : ∀ d ∈ c :: ds, d.isDigit = true := hds ▸ hdigits
  rw [hds] at hwhole
  unfold numeral
  dsimp only
  rw [hds]
  split
  · next d rest hpoint =>
    by_cases hd : d.isDigit = true
    · -- The fraction is read to its last digit.
      rw [if_pos hd]
      have hbehind : (s.skip Char.isDigit).advance.rest = d :: rest := by
        rw [rest_advance, hpoint]
        rfl
      have hfraction := Passes.skip Char.isDigit (s.skip Char.isDigit).advance
      obtain ⟨es, hes⟩ : ∃ es, (s.skip Char.isDigit).advance.rest.takeWhile Char.isDigit
          = d :: es := by
        rw [hbehind]
        exact ⟨_, List.takeWhile_cons_of_pos hd⟩
      rw [hes] at hfraction ⊢
      exact ⟨.number, _, _, hwhole.trans (.step hpoint hfraction),
        .decimal hall (hes ▸ hdigits) (head_skip _ _), rfl⟩
    · -- A point without a digit behind it is left.
      rw [if_neg hd]
      refine ⟨.number, _, _, hwhole, .whole hall hend fun e t ht => ?_, rfl⟩
      rw [hpoint] at ht
      cases ht
      exact Bool.eq_false_iff.mpr hd
  · next hnone =>
    exact ⟨.number, _, _, hwhole, .whole hall hend fun e t ht => absurd ht (hnone e t), rfl⟩

theorem lexed_word (hs : s.rest = c :: cs) (hc : isWordStart c = true) :
    s.Lexed s.word.2 s.word.1 := by
  have hpast := Passes.skip isWordRest s
  obtain ⟨ds, hds⟩ : ∃ ds, s.rest.takeWhile isWordRest = c :: ds := by
    rw [hs]
    exact ⟨_, List.takeWhile_cons_of_pos (isWordRest_of_isWordStart hc)⟩
  have hall : ∀ d ∈ c :: ds, isWordRest d = true := fun d hd => List.mem_takeWhile_imp (hds ▸ hd)
  unfold word
  rw [hds] at hpast ⊢
  exact ⟨_, _, _, hpast, .word hc (List.forall_mem_cons.mp hall).2 (head_skip isWordRest s), rfl⟩

theorem symbol?_le_length {kind : TokenKind} {n : Nat} (h : symbol? cs = some (kind, n)) :
    n ≤ cs.length := by
  unfold symbol? at h
  split at h <;> cases h <;> simp

theorem symbol?_kind {kind : TokenKind} {n : Nat} (h : symbol? cs = some (kind, n)) :
    kind ≠ .eof ∧ kind ≠ .string ∧ kind ≠ .quotedIdent := by
  unfold symbol? at h
  split at h <;> simp only [Option.some.injEq, Prod.mk.injEq, reduceCtorEq] at h
  all_goals
    rw [← h.1]
    decide

theorem lexed_symbol {kind : TokenKind} {n : Nat} (h : symbol? s.rest = some (kind, n)) :
    s.Lexed (advanceBy n s) (s.tokenTo (advanceBy n s) kind (s.rest.take n)) := by
  have hpast := Passes.advanceBy n s
  have hlength : (s.rest.take n).length = n := List.length_take_of_le (symbol?_le_length h)
  refine ⟨kind, _, _, hpast, .symbol ?_, rfl⟩
  rw [← hpast.rest_eq, hlength]
  exact h

/-- What is read is a lexeme, or the end of the text. -/
theorem lexeme_of_token (h : s.token source = (.ok t, past)) :
    (s.rest = [] ∧ past = s ∧ t = s.tokenTo s .eof []) ∨ s.Lexed past t := by
  unfold token at h
  split at h
  · next hs =>
    cases h
    exact Or.inl ⟨hs, rfl, rfl⟩
  · next c cs hs =>
    right
    split at h
    · next hc => exact lexed_quoted (hc ▸ hs) .string h
    split at h
    · next hc => exact lexed_quoted (hc ▸ hs) .quoted h
    split at h
    · next hc => exact lexed_bracketed (hc ▸ hs) h
    split at h
    · next hc =>
      cases h
      exact lexed_numeral hs hc
    split at h
    · next hc =>
      cases h
      exact lexed_word hs hc
    split at h
    · next hsymbol =>
      cases h
      exact lexed_symbol hsymbol
    · cases h

/-! ## Failures -/

/-- The failure of a token that starts with the characters. -/
inductive Fault (source : String) (s : Scan) : Error → Prop
  | string {cs : List Char} (h : s.rest = '\'' :: cs) :
      Fault source s (.unterminated "string literal" (s.spanToEnd.location source))
  | quoted {cs : List Char} (h : s.rest = '"' :: cs) :
      Fault source s (.unterminated "quoted identifier" (s.spanToEnd.location source))
  | bracketed {cs : List Char} (h : s.rest = '[' :: cs) :
      Fault source s (.unterminated "bracketed identifier" (s.spanToEnd.location source))
  | comment {cs : List Char} (h : s.rest = '/' :: '*' :: cs) :
      Fault source s (.unterminated "block comment" (s.spanToEnd.location source))
  | character {c : Char} {cs : List Char} (h : s.rest = c :: cs) :
      Fault source s (.invalidCharacter c (Span.location ⟨s.offset, c.utf8Size, s.line.toNat⟩ source))

theorem fault_of_token (h : s.token source = (.error e, past)) : Fault source s e := by
  unfold token at h
  split at h
  · cases h
  · next c cs hs =>
    split at h
    · next hc =>
      unfold quoted at h
      split at h <;> cases h
      exact .string (hc ▸ hs)
    split at h
    · next hc =>
      unfold quoted at h
      split at h <;> cases h
      exact .quoted (hc ▸ hs)
    split at h
    · next hc =>
      unfold bracketed at h
      dsimp only at h
      split at h <;> cases h
      exact .bracketed (hc ▸ hs)
    split at h
    · cases h
    split at h
    · cases h
    split at h <;> cases h
    exact .character hs

end Scan

end SelectEngine
