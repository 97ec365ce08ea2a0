import Mathlib.Algebra.Group.Nat.Defs
import SelectEngine.Proofs.Token.Drain
import SelectEngine.Proofs.Token.Gap
import SelectEngine.Token.Reader

/-!
# The lines of tokens and failures

`lineAt text offset` counts the line breaks of a text that end at or before a byte, whatever they
stand in. A scan counts them one character at a time, and it goes on from one place to the next in
many ways: over blanks and comments, over quoted runs and behind failures. All of these pass over
the characters between the two places (`Scan.reaches_next`), and over characters the count keeps up
with the text (`Scan.Passes.line_eq`).

The count has 32 bits. Where it is allowed to start again, whatever is handed out, token or failure,
reports its line modulo `2 ^ 32`, and thus its line in a text that has no more lines than that.
Where arithmetic is checked instead, a call that would overflow the count hands out nothing
(`Scan.checked`), and whatever is handed out stands on its line (`outcomes_onLine`).
-/

set_option autoImplicit false

namespace SelectEngine

/-! ## Counting line breaks -/

/-- The bytes at which the line breaks of the characters end, the first of which stands at byte
`start`. A line feed, a carriage return with a line feed behind it and any other carriage return are
one break each. -/
def breakEnds : List Char → Nat → List Nat
  | [], _ => []
  | '\r' :: '\n' :: cs, start => (start + 2) :: breakEnds cs (start + 2)
  | '\r' :: cs, start => (start + 1) :: breakEnds cs (start + 1)
  | '\n' :: cs, start => (start + 1) :: breakEnds cs (start + 1)
  | c :: cs, start => breakEnds cs (start + c.utf8Size)

/-- The line of a byte: one more than the line breaks that end at or before it. -/
def lineAt (text : String) (offset : Nat) : Nat :=
  1 + (breakEnds text.toList 0).countP (· ≤ offset)

/-- The line of the end of a text. -/
def lineCount (text : String) : Nat := 1 + (breakEnds text.toList 0).length

theorem lineAt_le_lineCount (text : String) (offset : Nat) : lineAt text offset ≤ lineCount text :=
  Nat.add_le_add_left List.countP_le_length 1

/-- A text of two breaks before its last word, the carriage return and the line feed being one. -/
example : ((List.range 8).map (lineAt "a\r\nb\r\rc")) = [1, 1, 1, 2, 2, 3, 4, 4] := by decide

/-- A character brings the line break that ends with it, if one does. -/
theorem breakEnds_cons (c : Char) (cs : List Char) (start : Nat) :
    breakEnds (c :: cs) start =
      List.replicate (breaksAt c cs) (start + c.utf8Size)
        ++ breakEnds cs (start + c.utf8Size) := by
  have hreturn : '\r'.utf8Size = 1 := rfl
  have hfeed : '\n'.utf8Size = 1 := rfl
  rw [breakEnds.eq_def]
  split
  · next heq => cases heq
  · -- The carriage return ends nothing, the line feed behind it ends both.
    next cs' start heq =>
    obtain ⟨rfl, rfl⟩ := List.cons.inj heq
    simp [breaksAt, hreturn, breakEnds, Nat.add_assoc]
  · -- A carriage return without a line feed behind it is a break of its own.
    next cs' start hno heq =>
    obtain ⟨rfl, rfl⟩ := List.cons.inj heq
    have hhead : cs.head? ≠ some '\n' := by
      intro hhead
      obtain ⟨cs', rfl⟩ := List.head?_eq_some_iff.mp hhead
      exact hno cs' rfl
    simp [breaksAt, hreturn, hhead]
  · next cs' start heq =>
    obtain ⟨rfl, rfl⟩ := List.cons.inj heq
    simp [breaksAt, hfeed]
  · next c' cs' start hpair hreturn' hfeed' heq =>
    obtain ⟨rfl, rfl⟩ := List.cons.inj heq
    have hnone : breaksAt c cs = 0 := if_neg fun h => h.elim hfeed' fun h => hreturn' h.1
    rw [hnone, List.replicate_zero, List.nil_append]

/-- A line break ends behind the place where the characters start. -/
theorem lt_of_mem_breakEnds {cs : List Char} {start stop : Nat} (h : stop ∈ breakEnds cs start) :
    start < stop := by
  induction cs generalizing start with
  | nil => cases h
  | cons c cs ih =>
    have hc := c.utf8Size_pos
    rw [breakEnds_cons, List.mem_append] at h
    -- A break of the first character ends with it, and the others end later.
    rcases h with h | h
    · rw [List.eq_of_mem_replicate h]
      omega
    · have := ih h
      omega

/-! ## Scans keep count -/

namespace Scan

variable {source : String} {s start past : Scan} {cs : List Char}

theorem line_advance {c : Char} {rest : List Char} (h : s.rest = c :: rest) :
    s.advance.line = s.line + .ofNat (breaksAt c rest) := by
  obtain ⟨_, offset, line⟩ := s
  subst h
  rfl

/-- The line breaks between two places of a text. -/
def breaksTo (s past : Scan) : Nat := (breakEnds s.rest s.offset).countP (· ≤ past.offset)

/-- All breaks of what is left end behind the place. -/
theorem breaksTo_self (s : Scan) : s.breaksTo s = 0 := by
  refine List.countP_eq_zero.mpr fun stop hstop => ?_
  have := lt_of_mem_breakEnds hstop
  simpa using this

/-- The breaks of the character that is passed all end at or before the place that is reached. -/
theorem breaksTo_of_step {c : Char} {rest : List Char} (h : s.rest = c :: rest)
    (later : s.advance.Passes cs past) :
    s.breaksTo past = breaksAt c rest + s.advance.breaksTo past := by
  have hpast : s.offset + c.utf8Size ≤ past.offset := by
    rw [later.offset_eq, Passes.offset_advance h]
    exact Nat.le_add_right _ _
  have hcount : (List.replicate (breaksAt c rest) (s.offset + c.utf8Size)).countP
      (· ≤ past.offset) = breaksAt c rest := by
    rw [List.countP_replicate, if_pos (by simpa using hpast)]
  have hrest : s.advance.rest = rest := by rw [rest_advance, h, List.tail_cons]
  rw [breaksTo, breaksTo, hrest, Passes.offset_advance h, h, breakEnds_cons, List.countP_append,
    hcount]

/-- Between two places the line grows by the line breaks that end in between. -/
theorem Passes.line_eq (h : s.Passes cs past) : past.line = s.line + .ofNat (s.breaksTo past) := by
  induction h with
  | refl s => exact (breaksTo_self s).symm ▸ (UInt32.add_zero s.line).symm
  | step h later ih =>
    rw [ih, line_advance h, breaksTo_of_step h later, UInt32.ofNat_add, UInt32.add_assoc]

theorem Passes.breaksTo_add {ds : List Char} (h : s.Passes cs start) (h' : start.Passes ds past) :
    s.breaksTo past = s.breaksTo start + start.breaksTo past := by
  induction h with
  | refl s => rw [breaksTo_self, Nat.zero_add]
  | step h later ih =>
    rw [breaksTo_of_step h (later.trans h'), breaksTo_of_step h later, ih h', Nat.add_assoc]

/-- Reading can go from the first place to the second. -/
def Reaches (s past : Scan) : Prop := ∃ cs, s.Passes cs past

namespace Reaches

theorem refl (s : Scan) : s.Reaches s := ⟨[], .refl s⟩

theorem trans (h : s.Reaches start) (h' : start.Reaches past) : s.Reaches past := by
  obtain ⟨front, hfront⟩ := h
  obtain ⟨back, hback⟩ := h'
  exact ⟨front ++ back, hfront.trans hback⟩

theorem skip (p : Char → Bool) (s : Scan) : s.Reaches (s.skip p) := ⟨_, Passes.skip p s⟩

theorem advance (s : Scan) : s.Reaches s.advance := ⟨_, Passes.advanceBy 1 s⟩

variable {text : String}

/-- A place of the text is on its line, in 32 bits. -/
theorem toNat_line (h : (ofText text).Reaches s) :
    s.line.toNat = lineAt text s.offset % 2 ^ 32 := by
  obtain ⟨cs, hpast⟩ := h
  have hline : s.line = .ofNat (lineAt text s.offset) := by
    rw [hpast.line_eq, lineAt, UInt32.ofNat_add]
    rfl
  rw [hline, UInt32.toNat_ofNat']

/-- Between two places of the text the lines grow by the breaks in between. -/
theorem lineAt_eq (h : (ofText text).Reaches s) (h' : s.Reaches past) :
    lineAt text past.offset = lineAt text s.offset + s.breaksTo past := by
  obtain ⟨front, hfront⟩ := h
  obtain ⟨back, hback⟩ := h'
  have hadd : (ofText text).breaksTo past = (ofText text).breaksTo s + s.breaksTo past :=
    hfront.breaksTo_add hback
  show 1 + (ofText text).breaksTo past = 1 + (ofText text).breaksTo s + s.breaksTo past
  rw [hadd, Nat.add_assoc]

end Reaches

/-! ## Every way of reading passes over characters -/

theorem reaches_quotedText (quote : Char) (s : Scan) (acc : List Char) :
    s.Reaches (quotedText quote s acc).2 := by
  fun_induction quotedText quote s acc with
  | case1 s => exact .refl s
  | case2 s acc c cs hfound behind read hdouble _ ih =>
    exact (((Reaches.skip _ s).trans (.advance _)).trans (.advance _)).trans ih
  | case3 s acc c cs hfound behind => exact (Reaches.skip _ s).trans (.advance _)

theorem reaches_quoted (source : String) (kind : TokenKind) (quote : Char) (what : String)
    (s : Scan) : s.Reaches (s.quoted source kind quote what).2 := by
  have htext := (Reaches.advance s).trans (reaches_quotedText quote s.advance [])
  unfold quoted
  split
  all_goals
    next hread =>
    rwa [hread] at htext

theorem reaches_bracketed (source : String) (s : Scan) : s.Reaches (s.bracketed source).2 := by
  unfold bracketed
  dsimp only
  split
  · exact .advance s
  · exact ((Reaches.advance s).trans (.skip _ _)).trans (.advance _)

theorem reaches_numeral (s : Scan) : s.Reaches s.numeral.2 := by
  have hwhole := Reaches.skip Char.isDigit s
  unfold numeral
  dsimp only
  split
  · split
    · exact (hwhole.trans (.advance _)).trans (.skip _ _)
    · exact hwhole
  · exact hwhole

theorem reaches_token (source : String) (s : Scan) : s.Reaches (s.token source).2 := by
  unfold token
  split
  · exact .refl s
  split
  · exact reaches_quoted _ _ _ _ s
  split
  · exact reaches_quoted _ _ _ _ s
  split
  · exact reaches_bracketed _ s
  split
  · exact reaches_numeral s
  split
  · exact .skip isWordRest s
  split
  · exact ⟨_, Passes.advanceBy _ s⟩
  · exact .refl s

/-- A comment is left behind its characters, whether it has an end or not. -/
theorem reaches_skipComment (cs : List Char) (offset : Nat) (line : UInt32) :
    Reaches ⟨cs, offset, line⟩ (skipComment cs offset line).2 := by
  rcases hcomment : skipComment cs offset line with ⟨_ | _, past⟩
  · exact ⟨_, (rest_of_skipComment hcomment).1⟩
  · obtain ⟨body, -, hpast⟩ := passes_of_skipComment hcomment
    exact ⟨_, hpast⟩

theorem reaches_skipGap (source : String) (s : Scan) : s.Reaches (s.skipGap source).2 := by
  fun_induction skipGap source s with
  | case1 s t h _ ih => exact (((Reaches.skip _ s).trans (.advance _)).trans (.skip _ _)).trans ih
  | case2 s t h _ ih => exact (((Reaches.skip _ s).trans (.advance _)).trans (.skip _ _)).trans ih
  | case3 s t h opening inside past hclosed _ ih =>
    have hinside := ((Reaches.skip isBlank s).trans (.advance _)).trans (.advance _)
    have hcomment := reaches_skipComment inside.rest inside.offset inside.line
    rw [hclosed] at hcomment
    exact (hinside.trans hcomment).trans ih
  | case4 s t h opening inside past hopen =>
    have hinside := ((Reaches.skip isBlank s).trans (.advance _)).trans (.advance _)
    have hcomment := reaches_skipComment inside.rest inside.offset inside.line
    rw [hopen] at hcomment
    exact hinside.trans hcomment
  | case5 s => exact .skip isBlank s

/-- Reading goes on from a place that it can go to, behind a failure as well. -/
theorem reaches_next (source : String) (s : Scan) : s.Reaches (s.next source).2 := by
  have hgap := reaches_skipGap source s
  unfold next
  split
  · next hskip =>
    rwa [hskip] at hgap
  · next start hskip =>
    rw [hskip] at hgap
    exact hgap.trans (reaches_token source start)

/-! ## Tokens and failures -/

/-- The place is the one that is reported: where the token starts, or the failure. -/
def Reports (start : Scan) : Except Error Token → Prop
  | .ok t => t.span.offset = start.offset ∧ t.span.line = start.line.toNat
  | .error e => ∃ place, e.location? = some place ∧ place.offset = start.offset ∧
      place.line = start.line.toNat

theorem reports_token (source : String) (s : Scan) : s.Reports (s.token source).1 := by
  rcases htoken : s.token source with ⟨e | t, past⟩
  · have hfault := fault_of_token htoken
    cases hfault <;> exact ⟨_, rfl, rfl, rfl⟩
  · obtain ⟨-, rfl, rfl⟩ | ⟨kind, read, cs, -, -, rfl⟩ := lexeme_of_token htoken <;>
      exact ⟨rfl, rfl⟩

/-- What is read is reported at a place on the way to where it is left. -/
theorem exists_reports_next (source : String) (s : Scan) :
    ∃ start, s.Reaches start ∧ start.Reaches (s.next source).2 ∧
      start.Reports (s.next source).1 := by
  obtain ⟨g, start, hstart, -, -, ⟨hskip, -⟩ | ⟨e, past, body, hskip, hfault, hpast⟩⟩ :=
    skipGap_cases source s
  · refine ⟨start, ⟨g, hstart⟩, ?_⟩
    simp only [next, hskip]
    exact ⟨reaches_token source start, reports_token source start⟩
  · refine ⟨start, ⟨g, hstart⟩, ?_⟩
    simp only [next, hskip]
    refine ⟨⟨body, hpast⟩, ?_⟩
    cases hfault <;> exact ⟨_, rfl, rfl, rfl⟩

/-- The place from which the call after `n` calls reads on, whatever these answered. -/
def after (source : String) : Nat → Scan → Scan
  | 0, s => s
  | n + 1, s => after source n (s.next source).2

theorem reaches_after (source : String) : ∀ (n : Nat) (s : Scan), s.Reaches (s.after source n)
  | 0, s => .refl s
  | n + 1, s => (reaches_next source s).trans (reaches_after source n _)

end Scan

/-! ## On its line -/

/-- The token or the failure reports the line that is counted for the byte that it reports. -/
def OnCounted (line : Nat → Nat) : Except Error Token → Prop
  | .ok t => t.span.line = line t.span.offset
  | .error e => ∃ place, e.location? = some place ∧ place.line = line place.offset

/-- The token or the failure reports the line of the byte that it reports. -/
def OnLine (text : String) : Except Error Token → Prop := OnCounted (lineAt text)

/-- The token or the failure reports that line in 32 bits. -/
def OnLine32 (text : String) : Except Error Token → Prop :=
  OnCounted fun offset => lineAt text offset % 2 ^ 32

variable {source text : String} {outcome : Except Error Token}

/-- In a text whose lines are counted in 32 bits the two are the same. -/
theorem OnLine32.onLine (h : OnLine32 text outcome) (hcount : lineCount text < 2 ^ 32) :
    OnLine text outcome := by
  have hline : (fun offset => lineAt text offset % 2 ^ 32) = lineAt text := by
    funext offset
    exact Nat.mod_eq_of_lt (Nat.lt_of_le_of_lt (lineAt_le_lineCount text offset) hcount)
  rwa [OnLine32, hline] at h

namespace Scan

variable {s start past : Scan} {ts : List Token} {failure : Option Error}

theorem Reports.onCounted {line : Nat → Nat} (h : start.Reports outcome)
    (hline : start.line.toNat = line start.offset) : OnCounted line outcome := by
  cases outcome with
  | ok t =>
    obtain ⟨hoffset, hstart⟩ := h
    rw [OnCounted, hoffset, hstart, hline]
  | error e =>
    obtain ⟨place, hplace, hoffset, hstart⟩ := h
    exact ⟨place, hplace, by rw [hoffset, hstart, hline]⟩

/-- What is read at a place of the text is on its line. -/
theorem onLine32_next (source : String) (h : (ofText text).Reaches s) :
    OnLine32 text (s.next source).1 := by
  obtain ⟨start, hstart, -, hreports⟩ := exists_reports_next source s
  exact hreports.onCounted (h.trans hstart).toNat_line

/-- The tokens that are read one after the other are on their lines, and so is the failure. -/
theorem onLine32_drain (h : s.drain source = (ts, failure)) (hs : (ofText text).Reaches s) :
    (∀ t ∈ ts, OnLine32 text (.ok t)) ∧ ∀ e ∈ failure, OnLine32 text (.error e) := by
  have hfirst := onLine32_next source hs
  induction ts generalizing s with
  | nil =>
    obtain ⟨e, past, hnext, rfl⟩ := next_of_drain_nil h
    rw [hnext] at hfirst
    exact ⟨List.forall_mem_nil _, by rintro _ ⟨⟩; exact hfirst⟩
  | cons t ts ih =>
    obtain ⟨past, hnext, ⟨-, rfl, rfl⟩ | ⟨-, hpast⟩⟩ := next_of_drain_cons h
    all_goals rw [hnext] at hfirst
    -- The token is the end of the text, or others are read from where it leaves off.
    · exact ⟨List.forall_mem_singleton.mpr hfirst, nofun⟩
    · have hreach := reaches_next source s
      rw [hnext] at hreach
      have hplace := hs.trans hreach
      obtain ⟨htokens, hfailure⟩ := ih hpast hplace (onLine32_next source hplace)
      exact ⟨List.forall_mem_cons.mpr ⟨hfirst, htokens⟩, hfailure⟩

end Scan

/-- A reader stands where its scan can go. -/
theorem Reader.reaches_after (source : String) (n : Nat) (r : Reader) :
    r.scan.Reaches (r.after source n).scan := by
  induction n generalizing r with
  | zero => exact .refl r.scan
  | succ n ih =>
    refine Scan.Reaches.trans ?_ (ih (r.next? source).2)
    have hnext := Scan.reaches_next source r.scan
    unfold next?
    split
    · exact .refl r.scan
    split
    all_goals
      next hread =>
      rwa [hread] at hnext

/-- All that is handed out of a text has the property: the answers of a scan, also of one that goes
on behind failures, those that a reader hands out, and all that the whole text is read to. -/
structure HandedOut (source text : String) (P : Except Error Token → Prop) : Prop where
  scan : ∀ n, P (((Scan.ofText text).after source n).next source).1
  reader : ∀ n, ∀ outcome ∈ (((Reader.ofText text).after source n).next? source).1, P outcome
  whole : match tokenize source text with
    | .ok ts => ∀ t ∈ ts, P (.ok t)
    | .error e => P (.error e)

theorem HandedOut.mono {P Q : Except Error Token → Prop} (h : HandedOut source text P)
    (himp : ∀ outcome, P outcome → Q outcome) : HandedOut source text Q where
  scan n := himp _ (h.scan n)
  reader n outcome houtcome := himp _ (h.reader n outcome houtcome)
  whole := by
    have hwhole := h.whole
    split at hwhole
    · exact fun t ht => himp _ (hwhole t ht)
    · exact himp _ hwhole

theorem handedOut_onLine32 (source text : String) : HandedOut source text (OnLine32 text) where
  scan n := Scan.onLine32_next source (Scan.reaches_after source n _)
  reader n outcome houtcome := by
    have hplace := Reader.reaches_after source n (Reader.ofText text)
    have hfirst := Scan.onLine32_next source hplace
    unfold Reader.next? at houtcome
    split at houtcome
    · cases houtcome
    split at houtcome
    all_goals
      next hread =>
      cases houtcome
      rwa [hread] at hfirst
  whole := by
    obtain ⟨ts, failure, hdrain⟩ :
        ∃ ts failure, (Scan.ofText text).drain source = (ts, failure) := ⟨_, _, rfl⟩
    obtain ⟨htokens, hfailure⟩ := Scan.onLine32_drain hdrain (.refl _)
    rw [tokenize, hdrain]
    cases failure with
    | none => exact htokens
    | some e => exact hfailure e rfl

/-! ## Where arithmetic is checked -/

namespace Scan

variable {s past : Scan} {outcomes : List (Except Error Token)} {n : Nat}

/-- A call where arithmetic is checked: nothing comes of it if a line break on the way overflows the
count. -/
def checked (source : String) (s : Scan) : Option (Except Error Token × Scan) :=
  let (outcome, past) := s.next source
  if s.line.toNat + s.breaksTo past < 2 ^ 32 then some (outcome, past) else none

/-- The answers of the first `n` calls where arithmetic is checked. -/
def allChecked (source : String) : Nat → Scan → Option (List (Except Error Token))
  | 0, _ => some []
  | n + 1, s => do
    let (outcome, past) ← s.checked source
    let later ← allChecked source n past
    some (outcome :: later)

/-- Up to a line that 32 bits can hold the count is right. -/
theorem Reaches.toNat_line_of_lt (h : (ofText text).Reaches s)
    (hline : lineAt text s.offset < 2 ^ 32) : s.line.toNat = lineAt text s.offset := by
  rw [h.toNat_line, Nat.mod_eq_of_lt hline]

/-- What a checked call answers is on its line, and so is the next call. -/
theorem onLine_of_checked (h : (ofText text).Reaches s) (hline : lineAt text s.offset < 2 ^ 32)
    (hchecked : s.checked source = some (outcome, past)) :
    OnLine text outcome ∧ (ofText text).Reaches past ∧ lineAt text past.offset < 2 ^ 32 := by
  have hreach := reaches_next source s
  obtain ⟨start, hstart, hbehind, hreports⟩ := exists_reports_next source s
  unfold checked at hchecked
  dsimp only at hchecked
  split at hchecked
  · next hless =>
    cases hchecked
    have hpast : lineAt text (s.next source).2.offset < 2 ^ 32 := by
      rwa [Reaches.lineAt_eq h hreach, ← h.toNat_line_of_lt hline]
    -- The place that is reported lies on the way to the next call.
    have hplace := h.trans hstart
    have hle := Reaches.lineAt_eq hplace hbehind
    exact ⟨hreports.onCounted (hplace.toNat_line_of_lt (by omega)), h.trans hreach, hpast⟩
  · cases hchecked

theorem onLine_of_allChecked (h : (ofText text).Reaches s) (hline : lineAt text s.offset < 2 ^ 32)
    (hchecked : s.allChecked source n = some outcomes) :
    ∀ outcome ∈ outcomes, OnLine text outcome := by
  induction n generalizing s outcomes with
  | zero =>
    cases hchecked
    exact List.forall_mem_nil _
  | succ n ih =>
    obtain ⟨⟨outcome, past⟩, hfirst, hbehind⟩ := Option.bind_eq_some_iff.mp hchecked
    obtain ⟨later, hlater, hall⟩ := Option.bind_eq_some_iff.mp hbehind
    cases hall
    obtain ⟨honLine, hreach, hpast⟩ := onLine_of_checked h hline hfirst
    exact List.forall_mem_cons.mpr ⟨honLine, ih hreach hpast hlater⟩

/-- In a text whose lines are counted in 32 bits no call overflows the count. -/
theorem isSome_allChecked (hcount : lineCount text < 2 ^ 32) (h : (ofText text).Reaches s)
    (n : Nat) :
    (s.allChecked source n).isSome = true := by
  induction n generalizing s with
  | zero => rfl
  | succ n ih =>
    have hreach := reaches_next source s
    have hlines (offset : Nat) : lineAt text offset < 2 ^ 32 :=
      Nat.lt_of_le_of_lt (lineAt_le_lineCount text offset) hcount
    have hpast := hlines (s.next source).2.offset
    rw [Reaches.lineAt_eq h hreach, ← h.toNat_line_of_lt (hlines _)] at hpast
    have hfirst : s.checked source = some (s.next source) := if_pos hpast
    obtain ⟨later, hlater⟩ := Option.isSome_iff_exists.mp (ih (h.trans hreach))
    rw [allChecked, hfirst, Option.bind_eq_bind, Option.bind_some]
    dsimp only
    rw [hlater]
    rfl

end Scan

end SelectEngine
