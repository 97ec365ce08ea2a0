import SelectEngine.Proofs.Token.Lexeme

/-!
# The gaps between tokens

`Gap last g` says that the characters `g` are blanks and comments, one behind the other. A comment
between `/*` and `*/` is closed by the first `*/` behind its opening. A comment behind `--` or `//`
goes on up to a line break; only where `last` holds may it end with the gap instead.

`Scan.skipGap` skips exactly the gaps: it passes over one that it finds (`Scan.skipGap_of_gap`), and
what it passes over is one (`Scan.skipGap_cases`).
-/

set_option autoImplicit false

namespace SelectEngine

/-- The characters that end a line. -/
def isLineEnd (c : Char) : Prop := c = '\n' ∨ c = '\r'

/-- Blanks and comments. Where `last` holds, a line comment may stand at the end without a line
break. -/
inductive Gap (last : Prop) : List Char → Prop
  | nil : Gap last []
  | blank {c : Char} {g : List Char} (hc : isBlank c = true) (hg : Gap last g) : Gap last (c :: g)
  /-- From `--` or `//` up to the line break. -/
  | line {m c : Char} {body g : List Char} (hm : m = '-' ∨ m = '/')
      (hbody : ∀ d ∈ body, ¬isLineEnd d) (hc : isLineEnd c) (hg : Gap last g) :
      Gap last (m :: m :: (body ++ c :: g))
  | ending {m : Char} {body : List Char} (hlast : last) (hm : m = '-' ∨ m = '/')
      (hbody : ∀ d ∈ body, ¬isLineEnd d) : Gap last (m :: m :: body)
  /-- From `/*` up to the first `*/`. -/
  | block {body g : List Char} (hbody : ¬['*', '/'] <:+: body) (hg : Gap last g) :
      Gap last ('/' :: '*' :: (body ++ '*' :: '/' :: g))

theorem isBlank_of_isLineEnd {c : Char} (h : isLineEnd c) : isBlank c = true := by
  rcases h with rfl | rfl <;> rfl

namespace Gap

variable {last : Prop} {g : List Char}

theorem mono {last' : Prop} (h : Gap last g) (himp : last → last') : Gap last' g := by
  induction h with
  | nil => exact .nil
  | blank hc hg ih => exact .blank hc ih
  | line hm hbody hc hg ih => exact .line hm hbody hc ih
  | ending hlast hm hbody => exact .ending (himp hlast) hm hbody
  | block hbody hg ih => exact .block hbody ih

theorem append {front back : List Char} (hfront : Gap False front) (hback : Gap last back) :
    Gap last (front ++ back) := by
  induction hfront with
  | nil => exact hback
  | blank hc hg ih => exact .blank hc ih
  | line hm hbody hc hg ih =>
    rw [List.cons_append, List.cons_append, List.append_assoc]
    exact .line hm hbody hc ih
  | ending hlast => exact hlast.elim
  | block hbody hg ih =>
    rw [List.cons_append, List.cons_append, List.append_assoc]
    exact .block hbody ih

theorem blanksThen : ∀ {blanks : List Char}, (∀ c ∈ blanks, isBlank c = true) → Gap last g →
    Gap last (blanks ++ g)
  | [], _, hg => hg
  | c :: _, h, hg =>
    .blank (h c List.mem_cons_self) (blanksThen (fun d hd => h d (List.mem_cons_of_mem c hd)) hg)

/-- The blanks at the head of a text belong to the gap behind them. -/
theorem leading (cs : List Char) (hg : Gap last g) : Gap last (cs.takeWhile isBlank ++ g) :=
  blanksThen (fun _ hc => List.mem_takeWhile_imp hc) hg

/-- A line comment goes on up to the gap that starts with a line break, or ends with the text. -/
theorem lineThen {m : Char} {body : List Char} (hm : m = '-' ∨ m = '/')
    (hbody : ∀ d ∈ body, ¬isLineEnd d) (hg : Gap last g) (hhead : ∀ c ∈ g.head?, isLineEnd c)
    (hnil : g = [] → last) : Gap last (m :: m :: (body ++ g)) := by
  cases hg with
  | nil =>
    rw [List.append_nil]
    exact .ending (hnil rfl) hm hbody
  | blank hc hg => exact .line hm hbody (hhead _ rfl) hg
  | line hm' hbody' hc hg =>
    rcases hm' with rfl | rfl <;> exact absurd (hhead _ rfl) (by simp [isLineEnd])
  | ending hlast hm' hbody' =>
    rcases hm' with rfl | rfl <;> exact absurd (hhead _ rfl) (by simp [isLineEnd])
  | block hbody' hg => exact absurd (hhead _ rfl) (by simp [isLineEnd])

end Gap

/-! ## Closed comments -/

/-- A comment is closed by the first `*/`. -/
theorem skipComment_closed {body rest : List Char} (hbody : ¬['*', '/'] <:+: body)
    (offset : Nat) (line : UInt32) :
    ∃ past, skipComment (body ++ '*' :: '/' :: rest) offset line = (true, past) ∧
      past.rest = rest := by
  induction body generalizing offset line with
  | nil => exact ⟨_, rfl, rfl⟩
  | cons c body ih =>
    rw [List.infix_cons_iff, not_or] at hbody
    -- The star and the slash would be one behind the other in the body.
    have hopen : ∀ t, c = '*' → body ++ '*' :: '/' :: rest ≠ '/' :: t := by
      rintro t rfl heq
      cases body with
      | nil => cases heq
      | cons d body =>
        obtain ⟨rfl, -⟩ := List.cons.inj heq
        exact hbody.1 ⟨body, rfl⟩
    rw [List.cons_append, skipComment]
    · exact ih hbody.2 _ _
    · exact fun t hc heq => hopen t hc heq

/-- What is skipped up to the end of a comment is its body and the closing. -/
theorem passes_of_skipComment {past : Scan} {cs : List Char} {offset : Nat} {line : UInt32}
    (h : skipComment cs offset line = (true, past)) :
    ∃ body, ¬['*', '/'] <:+: body ∧
      Scan.Passes ⟨cs, offset, line⟩ (body ++ ['*', '/']) past := by
  fun_induction skipComment cs offset line with
  | case1 => cases h
  | case2 rest offset line =>
    cases h
    exact ⟨[], by simp, .step rfl (.step rfl (Scan.advance_closing rest offset line ▸ .refl _))⟩
  | case3 c rest offset line hopen ih =>
    obtain ⟨body, hbody, hpast⟩ := ih h
    refine ⟨c :: body, ?_, .step rfl hpast⟩
    rw [List.infix_cons_iff, not_or]
    refine ⟨?_, hbody⟩
    rintro ⟨t, ht⟩
    have hrest := hpast.rest_eq
    obtain ⟨hc, ht⟩ := List.cons.inj ht
    rw [← ht] at hrest
    exact hopen (t ++ ['*', '/'] ++ past.rest) hc.symm (by simpa using hrest)

/-- A comment without an end is skipped to the end of the text. -/
theorem rest_of_skipComment {past : Scan} {cs : List Char} {offset : Nat} {line : UInt32}
    (h : skipComment cs offset line = (false, past)) :
    Scan.Passes ⟨cs, offset, line⟩ cs past ∧ past.rest = [] := by
  fun_induction skipComment cs offset line with
  | case1 =>
    cases h
    exact ⟨.refl _, rfl⟩
  | case2 => cases h
  | case3 c rest offset line hopen ih =>
    obtain ⟨hpast, hend⟩ := ih h
    exact ⟨.step rfl hpast, hend⟩

namespace Scan

variable {source : String} {s : Scan}

/-! ## Gaps are skipped -/

/-- What is skipped by what stands behind the blanks. -/
theorem skipGap_eq_match (source : String) (s : Scan) :
    s.skipGap source =
      match (s.skip isBlank).rest with
      | '-' :: '-' :: _ =>
        skipGap source ((s.skip isBlank).advance.skip fun c => c != '\n' && c != '\r')
      | '/' :: '/' :: _ =>
        skipGap source ((s.skip isBlank).advance.skip fun c => c != '\n' && c != '\r')
      | '/' :: '*' :: _ =>
        let start := s.skip isBlank
        let body := start.advance.advance
        match skipComment body.rest body.offset body.line with
        | (true, past) => skipGap source past
        | (false, past) =>
          (some (.unterminated "block comment" ((start.spanTo past).location source)), past)
      | _ => (none, s.skip isBlank) := by
  rw [skipGap]
  split
  · next h => simp only [h]
  · next h => simp only [h]
  · next h =>
    dsimp only
    split
    · next hc => simp only [h, hc]
    · next hc => simp only [h, hc]
  · next hdashes hslashes hopening =>
    split
    · next h => exact absurd h (hdashes _)
    · next h => exact absurd h (hslashes _)
    · next h => exact absurd h (hopening _)
    · rfl

theorem skipGap_of_blank {c : Char} {cs : List Char} (h : s.rest = c :: cs)
    (hc : isBlank c = true) : s.skipGap source = s.advance.skipGap source := by
  rw [skipGap_eq_match source s, skipGap_eq_match source s.advance, skip_of_pos h hc]

/-- A line comment is skipped up to its line break. -/
theorem skipGap_of_line {m : Char} {cs : List Char} (h : s.rest = m :: m :: cs)
    (hm : m = '-' ∨ m = '/') :
    s.skipGap source = (s.advance.skip fun c => c != '\n' && c != '\r').skipGap source := by
  have hskip : s.skip isBlank = s := by
    apply skip_of_head
    rw [h]
    rintro c ⟨⟩
    rcases hm with rfl | rfl <;> rfl
  rw [skipGap_eq_match, hskip]
  rcases hm with rfl | rfl
  · split
    · rfl
    · next h' => cases h.symm.trans h'
    · next h' => cases h.symm.trans h'
    · next h' _ _ => exact absurd h (h' _)
  · split
    · next h' => cases h.symm.trans h'
    · rfl
    · next h' => cases h.symm.trans h'
    · next h' _ => exact absurd h (h' _)

/-- A comment with an end is skipped. -/
theorem skipGap_of_block {past : Scan} {cs : List Char} (h : s.rest = '/' :: '*' :: cs)
    (hpast : skipComment s.advance.advance.rest s.advance.advance.offset s.advance.advance.line
      = (true, past)) : s.skipGap source = past.skipGap source := by
  have hskip : s.skip isBlank = s := by
    apply skip_of_head
    rw [h]
    rintro c ⟨⟩
    rfl
  rw [skipGap_eq_match, hskip]
  split
  · next h' => cases h.symm.trans h'
  · next h' => cases h.symm.trans h'
  · dsimp only
    split
    · next h' =>
      cases hpast.symm.trans h'
      rfl
    · next h' => cases hpast.symm.trans h'
  · next _ _ h' => exact absurd h (h' _)

theorem notLineEnd_iff {c : Char} : (c != '\n' && c != '\r') = true ↔ ¬isLineEnd c := by
  simp [isLineEnd]

/-- A gap is skipped up to the text behind it. -/
theorem skipGap_of_gap (source : String) {g cs : List Char} {last : Prop} (hg : Gap last g)
    (hcs : NoGap cs) (hlast : last → cs = []) (h : s.rest = g ++ cs) :
    ∃ start, s.skipGap source = (none, start) ∧ start.rest = cs := by
  induction hg generalizing s with
  | nil =>
    obtain ⟨hskip, hrest⟩ := skipGap_of_blanks source (List.forall_mem_nil _) hcs h
    exact ⟨_, hskip, hrest⟩
  | blank hc hg ih =>
    rw [skipGap_of_blank h hc]
    exact ih (by rw [rest_advance, h]; rfl)
  | @line m c body g hm hbody hc hg ih =>
    rw [skipGap_of_line h hm]
    have hbehind : s.advance.rest = (m :: body) ++ c :: (g ++ cs) := by
      rw [rest_advance, h]
      simp
    have hskip : (s.advance.skip fun c => c != '\n' && c != '\r').rest = c :: (g ++ cs) := by
      rw [rest_skip, hbehind]
      refine dropWhile_run (fun d hd => notLineEnd_iff.mpr ?_) ?_
      · rcases List.mem_cons.mp hd with rfl | hd
        · rcases hm with rfl | rfl <;> simp [isLineEnd]
        · exact hbody d hd
      · rintro d ⟨⟩
        rcases hc with rfl | rfl <;> rfl
    rw [skipGap_of_blank hskip (isBlank_of_isLineEnd hc)]
    exact ih (by rw [rest_advance, hskip]; rfl)
  | @ending m body hlast' hm hbody =>
    rw [hlast hlast', List.append_nil] at h
    rw [skipGap_of_line h hm]
    have hskip : (s.advance.skip fun c => c != '\n' && c != '\r').rest = [] ++ cs := by
      rw [rest_skip, rest_advance, h, hlast hlast']
      refine List.dropWhile_eq_nil_iff.mpr fun d hd => notLineEnd_iff.mpr ?_
      rcases List.mem_cons.mp hd with rfl | hd
      · rcases hm with rfl | rfl <;> simp [isLineEnd]
      · exact hbody d hd
    obtain ⟨hstay, hrest⟩ := skipGap_of_blanks source (List.forall_mem_nil _) hcs hskip
    exact ⟨_, hstay, hrest⟩
  | @block body g hbody hg ih =>
    have hbehind : s.advance.advance.rest = body ++ '*' :: '/' :: (g ++ cs) := by
      rw [rest_advance, rest_advance, h]
      simp
    obtain ⟨past, hpast, hrest⟩ :=
      skipComment_closed hbody s.advance.advance.offset s.advance.advance.line
    rw [← hbehind] at hpast
    rw [skipGap_of_block h hpast]
    exact ih hrest

/-! ## What is skipped is a gap -/

/-- From a line comment on up to what is skipped behind it. -/
theorem gap_of_line {m : Char} {cs g : List Char} {start : Scan}
    (h : (s.skip isBlank).rest = m :: m :: cs) (hm : m = '-' ∨ m = '/')
    (hpast : ((s.skip isBlank).advance.skip fun c => c != '\n' && c != '\r').Passes g start)
    (hg : Gap (start.rest = []) g) (hstart : ∀ c ∈ start.rest.head?, isBlank c = false) :
    ∃ g, s.Passes g start ∧ Gap (start.rest = []) g := by
  set isBody : Char → Bool := fun c => c != '\n' && c != '\r'
  have hbehind : (s.skip isBlank).advance.rest = m :: cs := by
    rw [rest_advance, h]
    rfl
  have hm' : isBody m = true := by rcases hm with rfl | rfl <;> rfl
  have hbody := Passes.skip isBody (s.skip isBlank).advance
  rw [hbehind, List.takeWhile_cons_of_pos hm'] at hbody
  have hend := head_skip isBody (s.skip isBlank).advance
  have hlines : ∀ c ∈ ((s.skip isBlank).advance.skip isBody).rest.head?, isLineEnd c := by
    intro c hc
    have := notLineEnd_iff.not.mp (Bool.eq_false_iff.mp (hend c hc))
    exact not_not.mp this
  refine ⟨_, ((Passes.skip isBlank s).trans (.step h (hbody.trans hpast))), ?_⟩
  refine Gap.leading s.rest ?_
  rw [List.cons_append]
  have hinside : ∀ d ∈ cs.takeWhile isBody, ¬isLineEnd d :=
    fun d hd => notLineEnd_iff.mp (List.mem_takeWhile_imp hd : isBody d = true)
  refine Gap.lineThen hm hinside hg ?_ ?_
  · intro c hc
    refine hlines c ?_
    rw [hpast.rest_eq]
    cases g with
    | nil => cases hc
    | cons d g => exact hc
  · -- At a line break the scan would not have stopped.
    rintro rfl
    rw [hpast.rest_eq, List.nil_append] at hlines
    cases hrest : start.rest with
    | nil => rfl
    | cons c rest =>
      rw [hrest] at hlines hstart
      have hblank := isBlank_of_isLineEnd (hlines c rfl)
      rw [hstart c rfl] at hblank
      cases hblank

/-- What is skipped is a gap; behind it the next token starts, or a comment without an end. -/
theorem skipGap_cases (source : String) (s : Scan) :
    ∃ g start, s.Passes g start ∧ Gap (start.rest = []) g ∧
      (∀ c ∈ start.rest.head?, isBlank c = false) ∧
      (s.skipGap source = (none, start) ∧ NoGap start.rest ∨
        ∃ e past body, s.skipGap source = (some e, past) ∧ Fault source start e ∧
          start.Passes body past) := by
  fun_induction skipGap source s with
  | case1 s cs h _ ih =>
    obtain ⟨g, start, hpast, hg, hstart, houtcome⟩ := ih
    obtain ⟨g, hpast, hg⟩ := gap_of_line h (Or.inl rfl) hpast hg hstart
    exact ⟨g, start, hpast, hg, hstart, houtcome⟩
  | case2 s cs h _ ih =>
    obtain ⟨g, start, hpast, hg, hstart, houtcome⟩ := ih
    obtain ⟨g, hpast, hg⟩ := gap_of_line h (Or.inr rfl) hpast hg hstart
    exact ⟨g, start, hpast, hg, hstart, houtcome⟩
  | case3 s cs h start0 inside past hclosed _ ih =>
    obtain ⟨g, start, hpast, hg, hstart, houtcome⟩ := ih
    obtain ⟨body, hbody, hcomment⟩ := passes_of_skipComment hclosed
    have hinside : start0.Passes ['/', '*'] inside :=
      .step h (.single (by rw [rest_advance, h]; rfl))
    refine ⟨_, start, (Passes.skip isBlank s).trans ((hinside.trans hcomment).trans hpast), ?_,
      hstart, houtcome⟩
    refine Gap.leading s.rest ?_
    have hblock := Gap.block hbody hg
    simpa using hblock
  | case4 s cs h start0 inside past hopen =>
    obtain ⟨hcomment, hend⟩ := rest_of_skipComment hopen
    have hinside : start0.Passes ['/', '*'] inside :=
      .step h (.single (by rw [rest_advance, h]; rfl))
    have hpast := hinside.trans hcomment
    have hall : start0.spanTo past = start0.spanToEnd := by
      rw [hpast.spanTo_eq, spanToEnd, hpast.rest_eq, hend, List.append_nil]
    refine ⟨_, start0, Passes.skip isBlank s, ?_, head_skip isBlank s,
      Or.inr ⟨_, past, _, rfl, ?_, hpast⟩⟩
    · have hblanks : Gap (start0.rest = []) (s.rest.takeWhile isBlank ++ []) := .leading s.rest .nil
      rwa [List.append_nil] at hblanks
    · rw [hall]
      exact .comment h
  | case5 s hdashes hslashes hopening =>
    refine ⟨_, s.skip isBlank, Passes.skip isBlank s, ?_, head_skip isBlank s, Or.inl ⟨rfl, ?_⟩⟩
    · have hblanks : Gap ((s.skip isBlank).rest = []) (s.rest.takeWhile isBlank ++ []) :=
        .leading s.rest .nil
      rwa [List.append_nil] at hblanks
    · exact ⟨head_skip isBlank s, hdashes, hslashes, hopening⟩

end Scan

end SelectEngine
