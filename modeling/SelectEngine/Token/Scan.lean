import SelectEngine.Token

/-!
# Reading tokens from text

A `Scan` is the text still to be read with the byte offset and the line it starts at. It moves one
character at a time (`Scan.advance`), and a line ends at a line feed, at a carriage return with a
line feed after it (as one) and at any other carriage return. Lines are counted in 32 bits, so that
behind the last line that 32 bits can hold the count starts again.

`Scan.next` skips blanks and comments and reads one token. It keeps its place after a failure, so
that reading can go on; at the end of the text it answers the `eof` token for ever. Every other
token takes at least one character (`Scan.next_shorter`), which is why `Scan.drain` ends.
-/

set_option autoImplicit false

namespace SelectEngine

/-- The blanks between tokens. -/
def isBlank (c : Char) : Bool :=
  c == ' ' || c == '\t' || c == '\n' || c == '\x0c' || c == '\r'

/-- The characters that start a bare word: letters, the underscore and all beyond ASCII. -/
def isWordStart (c : Char) : Bool :=
  c.isAlpha || c == '_' || c.toNat ≥ 0x80

/-- The characters that continue a bare word. -/
def isWordRest (c : Char) : Bool :=
  isWordStart c || c.isDigit || c == '$'

/-- The number of bytes of a run of characters. -/
def byteLength (cs : List Char) : Nat :=
  cs.foldl (fun n c => n + c.utf8Size) 0

/-- The text still to be read, its byte offset and its line. -/
structure Scan where
  rest : List Char
  offset : Nat
  line : UInt32
deriving DecidableEq

/-- The line breaks that end with the character `c` when `rest` follows it. -/
def breaksAt (c : Char) (rest : List Char) : Nat :=
  if c = '\n' ∨ c = '\r' ∧ rest.head? ≠ some '\n' then 1 else 0

/-- Moves over the leading characters that satisfy `p`. -/
def skipWhile (p : Char → Bool) : List Char → Nat → UInt32 → Scan
  | [], offset, line => ⟨[], offset, line⟩
  | c :: rest, offset, line =>
    if p c then skipWhile p rest (offset + c.utf8Size) (line + .ofNat (breaksAt c rest))
    else ⟨c :: rest, offset, line⟩

/-- Moves past the end of a comment, or to the end of the text if the comment has none. -/
def skipComment : List Char → Nat → UInt32 → Bool × Scan
  | [], offset, line => (false, ⟨[], offset, line⟩)
  | '*' :: '/' :: rest, offset, line => (true, ⟨rest, offset + 2, line⟩)
  | c :: rest, offset, line =>
    skipComment rest (offset + c.utf8Size) (line + .ofNat (breaksAt c rest))

namespace Scan

/-- The whole of a text. -/
def ofText (text : String) : Scan := ⟨text.toList, 0, 1⟩

/-- Moves over one character. -/
def advance : Scan → Scan
  | ⟨[], offset, line⟩ => ⟨[], offset, line⟩
  | ⟨c :: rest, offset, line⟩ => ⟨rest, offset + c.utf8Size, line + .ofNat (breaksAt c rest)⟩

/-- Moves over `n` characters. -/
def advanceBy : Nat → Scan → Scan
  | 0, s => s
  | n + 1, s => advanceBy n s.advance

/-- Moves over the leading characters that satisfy `p`. -/
def skip (p : Char → Bool) (s : Scan) : Scan := skipWhile p s.rest s.offset s.line

/-- The span from here to a later place. -/
def spanTo (s t : Scan) : Span := ⟨s.offset, t.offset - s.offset, s.line.toNat⟩

/-- The span from here to the end of the text. -/
def spanToEnd (s : Scan) : Span := ⟨s.offset, byteLength s.rest, s.line.toNat⟩

/-- The token that was read between two places. -/
def tokenTo (s t : Scan) (kind : TokenKind) (text : List Char) : Token :=
  ⟨kind, String.ofList text, s.spanTo t⟩

theorem rest_skipWhile (p : Char → Bool) :
    ∀ (cs : List Char) (offset : Nat) (line : UInt32),
      (skipWhile p cs offset line).rest = cs.dropWhile p
  | [], _, _ => rfl
  | c :: cs, offset, line => by
    by_cases h : p c <;> simp [skipWhile, h, rest_skipWhile p cs]

theorem rest_skip (p : Char → Bool) (s : Scan) : (s.skip p).rest = s.rest.dropWhile p :=
  rest_skipWhile p s.rest s.offset s.line

theorem rest_advance (s : Scan) : s.advance.rest = s.rest.tail := by
  rcases s with ⟨_ | ⟨c, cs⟩, o, l⟩ <;> rfl

/-- Neither of the two characters that close a comment ends a line. -/
theorem advance_closing (rest : List Char) (offset : Nat) (line : UInt32) :
    advance (advance ⟨'*' :: '/' :: rest, offset, line⟩) = ⟨rest, offset + 2, line⟩ := by
  simp [advance, breaksAt, Char.utf8Size]

theorem length_dropWhile_le (p : Char → Bool) (cs : List Char) :
    (cs.dropWhile p).length ≤ cs.length :=
  (List.dropWhile_suffix p).length_le

theorem length_skip_le (p : Char → Bool) (s : Scan) : (s.skip p).rest.length ≤ s.rest.length := by
  rw [rest_skip]
  exact length_dropWhile_le p s.rest

theorem length_advance_le (s : Scan) : s.advance.rest.length ≤ s.rest.length := by
  rw [rest_advance, List.length_tail]
  exact Nat.sub_le _ _

theorem length_advance_lt {s : Scan} {c : Char} {cs : List Char} (h : s.rest = c :: cs) :
    s.advance.rest.length < s.rest.length := by
  rw [rest_advance, h]
  simp

theorem length_advanceBy_le : ∀ (n : Nat) (s : Scan), (advanceBy n s).rest.length ≤ s.rest.length
  | 0, _ => Nat.le_refl _
  | n + 1, s => Nat.le_trans (length_advanceBy_le n s.advance) (length_advance_le s)

theorem length_skipComment_le :
    ∀ (cs : List Char) (offset : Nat) (line : UInt32),
      (skipComment cs offset line).2.rest.length ≤ cs.length
  | cs, offset, line => by
    fun_induction skipComment cs offset line with
    | case1 => simp
    | case2 => simp; omega
    | case3 _ _ _ _ _ ih => simp only [List.length_cons]; omega

/-- Behind the character that ends a run there is less text, whatever is skipped after it. -/
theorem length_skip_behind_lt {p : Char → Bool} {s : Scan} {c : Char} {cs : List Char}
    (q : Char → Bool) (h : (s.skip p).rest = c :: cs) :
    ((s.skip p).advance.skip q).rest.length < s.rest.length := by
  have h1 := length_skip_le p s
  have h2 := length_advance_lt h
  have h3 := length_skip_le q (s.skip p).advance
  omega

theorem length_advance_behind_lt {p : Char → Bool} {s : Scan} {c : Char} {cs : List Char}
    (h : (s.skip p).rest = c :: cs) : (s.skip p).advance.advance.rest.length < s.rest.length := by
  have h1 := length_skip_le p s
  have h2 := length_advance_lt h
  have h3 := length_advance_le (s.skip p).advance
  omega

theorem length_le_of_skipComment {body past : Scan} {closed : Bool}
    (h : skipComment body.rest body.offset body.line = (closed, past)) :
    past.rest.length ≤ body.rest.length := by
  have hle := length_skipComment_le body.rest body.offset body.line
  rwa [h] at hle

/-! ## Blanks and comments -/

/-- Moves over blanks and comments; a comment without an end is a failure at its start. -/
def skipGap (source : String) (s : Scan) : Option Error × Scan :=
  match h : (s.skip isBlank).rest with
  | '-' :: '-' :: _ =>
    have := length_skip_behind_lt (fun c => c != '\n' && c != '\r') h
    skipGap source ((s.skip isBlank).advance.skip fun c => c != '\n' && c != '\r')
  | '/' :: '/' :: _ =>
    have := length_skip_behind_lt (fun c => c != '\n' && c != '\r') h
    skipGap source ((s.skip isBlank).advance.skip fun c => c != '\n' && c != '\r')
  | '/' :: '*' :: _ =>
    let start := s.skip isBlank
    let body := start.advance.advance
    match hc : skipComment body.rest body.offset body.line with
    | (true, past) =>
      have := Nat.lt_of_le_of_lt (length_le_of_skipComment hc) (length_advance_behind_lt h)
      skipGap source past
    | (false, past) =>
      (some (.unterminated "block comment" ((start.spanTo past).location source)), past)
  | _ => (none, s.skip isBlank)
termination_by s.rest.length

/-! ## Tokens -/

/-- The text of a quoted run from behind its opening quote, in reverse onto `acc`: a doubled quote
stands for one, a single quote ends the run. Without an end the place is behind the last doubled
quote. -/
def quotedText (quote : Char) (s : Scan) (acc : List Char) : Option (List Char) × Scan :=
  match h : (s.skip (· != quote)).rest with
  | [] => (none, s)
  | _ :: _ =>
    let past := (s.skip (· != quote)).advance
    let read := (s.rest.takeWhile (· != quote)).reverse ++ acc
    if past.rest.head? = some quote then
      have := length_advance_behind_lt h
      quotedText quote past.advance (quote :: read)
    else (some read.reverse, past)
termination_by s.rest.length

/-- A quoted run with its quotes. -/
def quoted (source : String) (kind : TokenKind) (quote : Char) (what : String) (s : Scan) :
    Except Error Token × Scan :=
  match quotedText quote s.advance [] with
  | (some text, past) => (.ok (s.tokenTo past kind text), past)
  | (none, past) => (.error (.unterminated what (s.spanToEnd.location source)), past)

/-- A name between brackets, in which nothing is escaped. -/
def bracketed (source : String) (s : Scan) : Except Error Token × Scan :=
  let body := s.advance
  match (body.skip (· != ']')).rest with
  | [] => (.error (.unterminated "bracketed identifier" (s.spanToEnd.location source)), body)
  | _ :: _ =>
    let past := (body.skip (· != ']')).advance
    (.ok (s.tokenTo past .quotedIdent (body.rest.takeWhile (· != ']'))), past)

/-- Digits, and behind them a point if digits follow it. -/
def numeral (s : Scan) : Token × Scan :=
  let whole := s.skip Char.isDigit
  let digits := s.rest.takeWhile Char.isDigit
  match whole.rest with
  | '.' :: d :: _ =>
    if d.isDigit then
      let past := whole.advance.skip Char.isDigit
      (s.tokenTo past .number (digits ++ '.' :: whole.advance.rest.takeWhile Char.isDigit), past)
    else (s.tokenTo whole .number digits, whole)
  | _ => (s.tokenTo whole .number digits, whole)

/-- A bare word: a keyword or a name. -/
def word (s : Scan) : Token × Scan :=
  let past := s.skip isWordRest
  let text := s.rest.takeWhile isWordRest
  (s.tokenTo past ((TokenKind.keyword? (String.ofList text)).getD .ident) text, past)

/-- The punctuation mark or operator at the head of a text, and its number of characters. -/
def symbol? : List Char → Option (TokenKind × Nat)
  | '(' :: _ => some (.lparen, 1)
  | ')' :: _ => some (.rparen, 1)
  | ';' :: _ => some (.semicolon, 1)
  | ',' :: _ => some (.comma, 1)
  | '.' :: _ => some (.dot, 1)
  | '+' :: _ => some (.plus, 1)
  | '-' :: _ => some (.minus, 1)
  | '*' :: _ => some (.star, 1)
  | '/' :: _ => some (.slash, 1)
  | '%' :: _ => some (.percent, 1)
  | '?' :: _ => some (.question, 1)
  | '=' :: _ => some (.eq, 1)
  | '!' :: '=' :: _ => some (.ne, 2)
  | '<' :: '>' :: _ => some (.ne, 2)
  | '<' :: '=' :: _ => some (.le, 2)
  | '<' :: _ => some (.lt, 1)
  | '>' :: '=' :: _ => some (.ge, 2)
  | '>' :: _ => some (.gt, 1)
  | '|' :: '|' :: _ => some (.concat, 2)
  | '|' :: _ => some (.pipe, 1)
  | _ => none

/-- The token that starts here. -/
def token (source : String) (s : Scan) : Except Error Token × Scan :=
  match s.rest with
  | [] => (.ok (s.tokenTo s .eof []), s)
  | c :: _ =>
    if c = '\'' then s.quoted source .string '\'' "string literal"
    else if c = '"' then s.quoted source .quotedIdent '"' "quoted identifier"
    else if c = '[' then s.bracketed source
    else if c.isDigit then (.ok s.numeral.1, s.numeral.2)
    else if isWordStart c then (.ok s.word.1, s.word.2)
    else
      match symbol? s.rest with
      | some (kind, n) =>
        let past := advanceBy n s
        (.ok (s.tokenTo past kind (s.rest.take n)), past)
      | none =>
        (.error (.invalidCharacter c (Span.location ⟨s.offset, c.utf8Size, s.line.toNat⟩ source)), s)

/-- The next token behind blanks and comments, and the place from which reading goes on. -/
def next (source : String) (s : Scan) : Except Error Token × Scan :=
  match s.skipGap source with
  | (some e, past) => (.error e, past)
  | (none, start) => start.token source

/-! ## Every token takes a character -/

theorem length_skipGap_le (source : String) (s : Scan) :
    (s.skipGap source).2.rest.length ≤ s.rest.length := by
  fun_induction skipGap source s with
  | case1 s t h hless ih | case2 s t h hless ih => exact Nat.le_of_lt (Nat.lt_of_le_of_lt ih hless)
  | case3 s t h start body past hc hless ih => exact Nat.le_of_lt (Nat.lt_of_le_of_lt ih hless)
  | case4 s t h start body past hc =>
    have hbody : body.rest.length < s.rest.length := length_advance_behind_lt h
    exact Nat.le_trans (length_le_of_skipComment hc) (Nat.le_of_lt hbody)
  | case5 s => exact length_skip_le isBlank s

theorem length_quotedText_le (quote : Char) (s : Scan) (acc : List Char) :
    (quotedText quote s acc).2.rest.length ≤ s.rest.length := by
  fun_induction quotedText quote s acc with
  | case1 => exact Nat.le_refl _
  | case2 s acc c cs h past read hq hless ih =>
    exact Nat.le_of_lt (Nat.lt_of_le_of_lt ih hless)
  | case3 s acc c cs h past read hq =>
    exact Nat.le_trans (length_advance_le _) (length_skip_le _ s)

theorem length_dropWhile_lt {p : Char → Bool} {c : Char} {cs : List Char} (h : p c = true) :
    ((c :: cs).dropWhile p).length < (c :: cs).length := by
  rw [List.dropWhile_cons]
  simp only [h, ↓reduceIte, List.length_cons]
  exact Nat.lt_succ_of_le (length_dropWhile_le p cs)

theorem length_numeral_lt {s : Scan} {c : Char} {cs : List Char} (h : s.rest = c :: cs)
    (hc : c.isDigit = true) : s.numeral.2.rest.length < s.rest.length := by
  have hw : (s.skip Char.isDigit).rest.length < s.rest.length := by
    rw [rest_skip, h]
    exact length_dropWhile_lt hc
  have h1 := length_advance_le (s.skip Char.isDigit)
  have h2 := length_skip_le Char.isDigit (s.skip Char.isDigit).advance
  unfold numeral
  dsimp only
  split
  · split <;> dsimp only <;> omega
  · exact hw

theorem symbol?_pos {cs : List Char} {kind : TokenKind} {n : Nat}
    (h : symbol? cs = some (kind, n)) : 0 < n ∧ cs ≠ [] := by
  unfold symbol? at h
  split at h <;> simp_all <;> omega

theorem length_token_lt {source : String} {s past : Scan} {t : Token}
    (h : s.token source = (.ok t, past)) (ht : t.kind ≠ .eof) :
    past.rest.length < s.rest.length := by
  unfold token at h
  split at h
  · simp only [Prod.mk.injEq, Except.ok.injEq] at h
    exact absurd (by rw [← h.1]; rfl) ht
  · next c cs hs =>
    have hadv := length_advance_lt hs
    split at h
    · unfold quoted at h
      split at h
      · next text p hq =>
        simp only [Prod.mk.injEq] at h
        have := length_quotedText_le '\'' s.advance []
        rw [hq] at this
        rw [← h.2]
        dsimp only at this
        omega
      · simp at h
    split at h
    · unfold quoted at h
      split at h
      · next text p hq =>
        simp only [Prod.mk.injEq] at h
        have := length_quotedText_le '"' s.advance []
        rw [hq] at this
        rw [← h.2]
        dsimp only at this
        omega
      · simp at h
    split at h
    · unfold bracketed at h
      dsimp only at h
      split at h
      · simp at h
      · simp only [Prod.mk.injEq] at h
        have h1 := length_skip_le (· != ']') s.advance
        have h2 := length_advance_le (s.advance.skip (· != ']'))
        rw [← h.2]
        omega
    split at h
    · next hd =>
      simp only [Prod.mk.injEq] at h
      rw [← h.2]
      exact length_numeral_lt hs hd
    split at h
    · next hw =>
      simp only [Prod.mk.injEq] at h
      rw [← h.2]
      show (s.skip isWordRest).rest.length < _
      rw [rest_skip, hs]
      exact length_dropWhile_lt (by simp [isWordRest, hw])
    · split at h
      · next kind n hk =>
        simp only [Prod.mk.injEq] at h
        obtain ⟨hn, -⟩ := symbol?_pos hk
        rw [← h.2]
        cases n with
        | zero => omega
        | succ n =>
          have := length_advanceBy_le n s.advance
          show (advanceBy n s.advance).rest.length < _
          omega
      · simp at h

theorem next_shorter {source : String} {s past : Scan} {t : Token}
    (h : s.next source = (.ok t, past)) (ht : t.kind ≠ .eof) :
    past.rest.length < s.rest.length := by
  have hg := length_skipGap_le source s
  unfold next at h
  split at h
  · simp at h
  · next start hs =>
    rw [hs] at hg
    exact Nat.lt_of_lt_of_le (length_token_lt h ht) hg

/-! ## Reading everything -/

/-- The tokens up to the end of the text or to the first failure, and that failure. -/
def drain (source : String) (s : Scan) : List Token × Option Error :=
  match h : s.next source with
  | (.error e, _) => ([], some e)
  | (.ok t, past) =>
    if ht : t.kind = .eof then ([t], none)
    else
      have := next_shorter h ht
      let (ts, failure) := drain source past
      (t :: ts, failure)
termination_by s.rest.length

end Scan

/-- The tokens of a statement, the end of the text included. -/
def tokenize (source text : String) : Except Error (List Token) :=
  match (Scan.ofText text).drain source with
  | (ts, none) => .ok ts
  | (_, some e) => .error e

end SelectEngine
