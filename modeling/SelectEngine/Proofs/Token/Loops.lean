import SelectEngine.Proofs.Loop
import SelectEngine.Proofs.Token.Lines

/-!
# The loops of the tokenizer

Blanks, digits, words, comments and quoted runs are read by loops, and blanks and comments take
turns in a loop around these. None of them has a bound of its own. Each is given here by its turns,
and ends with what the tokenizer finds, since a turn that goes on takes at least one character
(`loops_end`). So does a token that is not the end of the text, and a character takes at least one
byte.
-/

set_option autoImplicit false

namespace SelectEngine.Scan

variable {source : String} {s : Scan}

/-! ## Turns -/

/-- One turn over the leading characters that satisfy `p`. -/
def skipTurn (p : Char → Bool) (s : Scan) : Loop.Turn Scan Scan :=
  match s.rest with
  | [] => .done s
  | c :: _ => if p c then .again s.advance else .done s

/-- One turn inside a comment. -/
def commentTurn (s : Scan) : Loop.Turn Scan (Bool × Scan) :=
  match s.rest with
  | [] => .done (false, s)
  | '*' :: '/' :: _ => .done (true, s.advance.advance)
  | _ :: _ => .again s.advance

/-- One turn between tokens: over blanks and a comment behind them. -/
def gapTurn (source : String) (s : Scan) : Loop.Turn Scan (Option Error × Scan) :=
  let start := s.skip isBlank
  match start.rest with
  | '-' :: '-' :: _ | '/' :: '/' :: _ => .again (start.advance.skip fun c => c != '\n' && c != '\r')
  | '/' :: '*' :: _ =>
    let body := start.advance.advance
    match skipComment body.rest body.offset body.line with
    | (true, past) => .again past
    | (false, past) =>
      .done (some (.unterminated "block comment" ((start.spanTo past).location source)), past)
  | _ => .done (none, start)

/-- One turn inside a quoted run: up to the next quote, and over it if it is doubled. -/
def quotedTurn (quote : Char) :
    Scan × List Char → Loop.Turn (Scan × List Char) (Option (List Char) × Scan)
  | (s, acc) =>
    match (s.skip (· != quote)).rest with
    | [] => .done (none, s)
    | _ :: _ =>
      let past := (s.skip (· != quote)).advance
      let read := (s.rest.takeWhile (· != quote)).reverse ++ acc
      if past.rest.head? = some quote then .again (past.advance, quote :: read)
      else .done (some read.reverse, past)

/-! ## What a turn takes -/

theorem measured_skipTurn (p : Char → Bool) :
    Loop.Measured (skipTurn p) (fun s => s.rest.length) (skip p) := by
  intro s
  unfold skipTurn
  split
  · next hrest => exact (skip_of_head (by rw [hrest]; exact nofun)).symm
  · next c cs hrest =>
    split
    · next hc => exact ⟨length_advance_lt hrest, (skip_of_pos hrest hc).symm⟩
    · next hc =>
      refine (skip_of_head ?_).symm
      rw [hrest]
      rintro _ ⟨⟩
      exact Bool.eq_false_iff.mpr hc

theorem measured_commentTurn :
    Loop.Measured commentTurn (fun s => s.rest.length)
      (fun s => skipComment s.rest s.offset s.line) := by
  rintro ⟨cs, offset, line⟩
  unfold commentTurn
  split
  · next hrest =>
    obtain rfl : cs = [] := hrest
    exact rfl
  · next rest hrest =>
    obtain rfl : cs = '*' :: '/' :: rest := hrest
    rw [advance_closing]
    exact rfl
  · next c rest hopen hrest =>
    obtain rfl : cs = c :: rest := hrest
    refine ⟨Nat.lt_succ_self _, ?_⟩
    dsimp only
    rw [skipComment]
    · rfl
    · exact hopen

theorem measured_gapTurn (source : String) :
    Loop.Measured (gapTurn source) (fun s => s.rest.length) (skipGap source) := by
  intro s
  have hblanks := length_skip_le isBlank s
  -- A line comment takes its first mark.
  have hline : ∀ {m : Char} {cs : List Char}, (s.skip isBlank).rest = m :: cs →
      ((s.skip isBlank).advance.skip fun c => c != '\n' && c != '\r').rest.length <
        s.rest.length := by
    intro m cs h
    have hmark := length_advance_lt h
    have hbody := length_skip_le (fun c => c != '\n' && c != '\r') (s.skip isBlank).advance
    omega
  fun_cases skipGap source s with
  | case1 cs h =>
    simp only [gapTurn, h]
    exact ⟨hline h, rfl⟩
  | case2 cs h =>
    simp only [gapTurn, h]
    exact ⟨hline h, rfl⟩
  | case3 cs h start body past hclosed =>
    have hlength := length_skipComment_le body.rest body.offset body.line
    have hstart : start.rest.length ≤ s.rest.length := hblanks
    have hopening : start.advance.rest.length < start.rest.length := length_advance_lt h
    have hinside : body.rest.length ≤ start.advance.rest.length := length_advance_le start.advance
    rw [hclosed] at hlength
    simp only [gapTurn, h]
    rw [show skipComment _ _ _ = (true, past) from hclosed]
    exact ⟨by dsimp only at hlength ⊢; omega, rfl⟩
  | case4 cs h start body past hopen =>
    simp only [gapTurn, h]
    rw [show skipComment _ _ _ = (false, past) from hopen]
    exact rfl
  | case5 hdashes hslashes hopening =>
    unfold gapTurn
    dsimp only
    split
    · next h => exact (hdashes _ h).elim
    · next h => exact (hslashes _ h).elim
    · next h => exact (hopening _ h).elim
    · exact rfl

theorem measured_quotedTurn (quote : Char) :
    Loop.Measured (quotedTurn quote) (fun state => state.1.rest.length)
      (fun state => quotedText quote state.1 state.2) := by
  rintro ⟨s, acc⟩
  dsimp only
  fun_cases quotedText quote s acc with
  | case1 h =>
    simp only [quotedTurn, h]
    exact rfl
  | case2 c cs h past read hq =>
    have hrun := length_skip_le (· != quote) s
    have hquote := length_advance_lt h
    have hdoubled := length_advance_le past
    simp only [quotedTurn, h]
    rw [if_pos hq]
    exact ⟨by dsimp only [past] at hdoubled ⊢; omega, rfl⟩
  | case3 c cs h past read hq =>
    simp only [quotedTurn, h]
    rw [if_neg hq]
    exact rfl

/-! ## All loops -/

/-- The loops of the tokenizer end from a place, and with them the next token is found. -/
structure LoopsEnd (source : String) (s : Scan) : Prop where
  skip : ∀ p, Loop.EndsWithin (skipTurn p) (s.rest.length + 1) s (s.skip p)
  comment : Loop.EndsWithin commentTurn (s.rest.length + 1) s
    (skipComment s.rest s.offset s.line)
  gap : Loop.EndsWithin (gapTurn source) (s.rest.length + 1) s (s.skipGap source)
  quoted : ∀ quote acc,
    Loop.EndsWithin (quotedTurn quote) (s.rest.length + 1) (s, acc) (quotedText quote s acc)
  /-- A token that is not the end of the text takes at least one byte. -/
  takes : ∀ t past, s.next source = (.ok t, past) → t.kind ≠ .eof → s.offset < past.offset

/-- A token that is not the end of the text takes at least one character, and so at least one
byte. -/
theorem offset_lt_of_next {t : Token} {past : Scan} (h : s.next source = (.ok t, past))
    (ht : t.kind ≠ .eof) : s.offset < past.offset := by
  obtain ⟨cs, hpast⟩ := reaches_next source s
  rw [h] at hpast
  have hshorter := next_shorter h ht
  have hne : cs ≠ [] := by
    rintro rfl
    rw [hpast.rest_eq] at hshorter
    exact Nat.lt_irrefl _ hshorter
  rw [hpast.offset_eq]
  exact Nat.lt_add_of_pos_right (byteLength_pos hne)

theorem loops_end (source : String) (s : Scan) : s.LoopsEnd source where
  skip p := (measured_skipTurn p).ends s
  comment := measured_commentTurn.ends s
  gap := (measured_gapTurn source).ends s
  quoted quote acc := (measured_quotedTurn quote).ends (s, acc)
  takes _ _ := offset_lt_of_next

end SelectEngine.Scan
