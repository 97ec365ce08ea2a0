import SelectEngine.Proofs.Token.Drain
import SelectEngine.Proofs.Token.Gap

/-!
# The tokens of a text as a relation

`Scan.Reads s ts stop` says that the tokens `ts` stand one behind the other from the place `s` to
the place `stop`, each behind a gap. Behind them the text ends (`Scan.Finishes`) or a failure is met
(`Scan.Fails`). `Scan.drain` reads what the relation says (`Scan.drain_of_reads`), and whatever it
reads stands in the relation (`Scan.reads_of_drain`).
-/

set_option autoImplicit false

namespace SelectEngine

theorem TokenKind.keyword?_mem {word : String} {kind : TokenKind}
    (h : TokenKind.keyword? word = some kind) : kind ∈ TokenKind.keywords :=
  List.mem_of_find?_eq_some h

/-- No lexeme is the end of the text. -/
theorem SpelledBefore.kind_ne {rest text cs : List Char} {kind : TokenKind}
    (h : SpelledBefore rest kind text cs) : kind ≠ .eof := by
  cases h with
  | @word c cs =>
    cases hkeyword : TokenKind.keyword? (String.ofList (c :: cs)) with
    | none => exact nofun
    | some kind =>
      have hmem := TokenKind.keyword?_mem hkeyword
      intro heof
      rw [Option.getD_some] at heof
      rw [heof] at hmem
      exact absurd hmem (by decide)
  | symbol h => exact (Scan.symbol?_kind h).1
  | quoted | bracketed | string | whole | decimal => exact nofun

theorem SpelledBefore.ne_nil {rest text cs : List Char} {kind : TokenKind}
    (h : SpelledBefore rest kind text cs) : cs ≠ [] := by
  cases h with
  | symbol h =>
    rintro rfl
    exact absurd (Scan.symbol?_pos h).1 (Nat.lt_irrefl 0)
  | word | quoted | bracketed | string | whole | decimal => exact nofun

namespace Scan

variable {source : String} {s start past stop : Scan} {t : Token} {ts : List Token} {e : Error}
  {g cs text : List Char} {kind : TokenKind}

/-- Reading goes from the first place over the tokens to the second. -/
inductive Reads : Scan → List Token → Scan → Prop
  | refl (s : Scan) : Reads s [] s
  | step {s start past stop : Scan} {g cs text : List Char} {kind : TokenKind} {ts : List Token}
      (hstart : s.Passes g start) (hg : Gap False g) (hno : NoGap start.rest)
      (hpast : start.Passes cs past) (hcs : SpelledBefore past.rest kind text cs)
      (later : Reads past ts stop) : Reads s (start.tokenTo past kind text :: ts) stop

/-- Nothing but a gap is left in front of the end of the text. -/
inductive Finishes : Scan → Token → Prop
  | mk {s start : Scan} {g : List Char} (hstart : s.Passes g start) (hg : Gap True g)
      (hend : start.rest = []) : Finishes s (start.tokenTo start .eof [])

/-- Behind a gap the text fails. -/
inductive Fails (source : String) : Scan → Error → Prop
  | mk {s start : Scan} {g : List Char} {e : Error} (hstart : s.Passes g start) (hg : Gap False g)
      (hfault : Fault source start e) : Fails source s e

theorem Fault.rest_ne_nil (h : Fault source s e) : s.rest ≠ [] := by
  cases h with
  | string h | quoted h | bracketed h | comment h | character h => exact h ▸ List.cons_ne_nil _ _

/-! ## One token -/

theorem skipGap_eq {last : Prop} (hstart : s.Passes g start) (hg : Gap last g)
    (hno : NoGap start.rest) (hlast : last → start.rest = []) :
    s.skipGap source = (none, start) := by
  obtain ⟨start', hskip, hrest⟩ := skipGap_of_gap source hg hno hlast hstart.rest_eq
  obtain ⟨g', start'', hstart'', -, -, ⟨hskip'', -⟩ | ⟨e, past, _, herror, -⟩⟩ :=
    skipGap_cases source s
  · -- Both places have the same text behind them, so the same gap lies in front of them.
    obtain rfl : start' = start'' := congrArg Prod.snd (hskip.symm.trans hskip'')
    have hgap : g = g' := by
      have hrest'' := hstart''.rest_eq
      rw [hstart.rest_eq, hrest] at hrest''
      exact List.append_cancel_right hrest''
    subst hgap
    rw [hskip, hstart.unique hstart'']
  · cases hskip.symm.trans herror

theorem next_of_lexeme (hstart : s.Passes g start) (hg : Gap False g) (hno : NoGap start.rest)
    (hpast : start.Passes cs past) (hcs : SpelledBefore past.rest kind text cs) :
    s.next source = (.ok (start.tokenTo past kind text), past) := by
  rw [next, skipGap_eq hstart hg hno False.elim]
  obtain ⟨past', htoken, hrest⟩ := token_of_lexeme source hcs hpast.rest_eq
  obtain ⟨hnil, -⟩ | ⟨kind', text', cs', hpast', hcs', heq⟩ := lexeme_of_token htoken
  · rw [hpast.rest_eq] at hnil
    exact absurd (List.append_eq_nil_iff.mp hnil).1 hcs.ne_nil
  · -- The token that is read leaves the same text behind it, so it has the same characters.
    have hchars : cs = cs' := by
      have hrest' := hpast'.rest_eq
      rw [hpast.rest_eq, hrest] at hrest'
      exact List.append_cancel_right hrest'
    subst hchars
    rw [hpast.unique hpast']
    exact htoken

theorem next_of_finishes (h : s.Finishes t) : ∃ past, s.next source = (.ok t, past) := by
  obtain ⟨hstart, hg, hend⟩ := h
  rename_i start g
  have hno : NoGap start.rest := by
    rw [hend]
    exact ⟨nofun, nofun, nofun, nofun⟩
  refine ⟨start, ?_⟩
  rw [next, skipGap_eq hstart hg hno fun _ => hend]
  show token source start = _
  rw [token, hend]

theorem kind_of_finishes (h : s.Finishes t) : t.kind = .eof := by
  cases h
  rfl

/-- What is read next is a token behind a gap, or the end of the text. -/
theorem next_ok_cases (h : s.next source = (.ok t, past)) :
    s.Finishes t ∨ t.kind ≠ .eof ∧
      ∀ {ts : List Token} {stop : Scan}, past.Reads ts stop → s.Reads (t :: ts) stop := by
  obtain ⟨g, start, hstart, hg, -, ⟨hskip, hno⟩ | ⟨e, past', _, herror, -⟩⟩ := skipGap_cases source s
  · rw [next, hskip] at h
    obtain ⟨hend, -, rfl⟩ | ⟨kind, text, cs, hpast, hcs, rfl⟩ := lexeme_of_token h
    · exact Or.inl ⟨hstart, hg.mono fun _ => trivial, hend⟩
    · refine Or.inr ⟨hcs.kind_ne, fun later => .step hstart (hg.mono fun hnil => ?_) hno hpast hcs
        later⟩
      rw [hpast.rest_eq] at hnil
      exact hcs.ne_nil (List.append_eq_nil_iff.mp hnil).1
  · rw [next, herror] at h
    cases h

theorem fails_of_next (h : s.next source = (.error e, past)) : s.Fails source e := by
  obtain ⟨g, start, hstart, hg, -, ⟨hskip, hno⟩ | ⟨e', past', _, herror, hfault, -⟩⟩ :=
    skipGap_cases source s
  · rw [next, hskip] at h
    have hfault := fault_of_token h
    exact ⟨hstart, hg.mono hfault.rest_ne_nil, hfault⟩
  · rw [next, herror] at h
    cases h
    exact ⟨hstart, hg.mono hfault.rest_ne_nil, hfault⟩

/-! ## All tokens -/

theorem Reads.append {us : List Token} (h : s.Reads ts past) (h' : past.Reads us stop) :
    s.Reads (ts ++ us) stop := by
  induction h with
  | refl s => exact h'
  | step hstart hg hno hpast hcs later ih => exact .step hstart hg hno hpast hcs (ih h')

/-- A run over tokens goes over the front of them first. -/
theorem Reads.split {us : List Token} (h : s.Reads (ts ++ us) stop) :
    ∃ past, s.Reads ts past ∧ past.Reads us stop := by
  induction ts generalizing s with
  | nil => exact ⟨s, .refl s, h⟩
  | cons t ts ih =>
    cases h with
    | step hstart hg hno hpast hcs later =>
      obtain ⟨past, hts, hus⟩ := ih later
      exact ⟨past, .step hstart hg hno hpast hcs hts, hus⟩

/-- A lexeme behind a gap is read in front of what is read behind it. -/
theorem reads_of_lexeme {rest : List Char} (hs : s.rest = g ++ (cs ++ rest)) (hg : Gap False g)
    (hno : NoGap (cs ++ rest)) (hcs : SpelledBefore rest kind text cs) :
    ∃ (t : Token) (past : Scan), t.kind = kind ∧ t.text = String.ofList text ∧ past.rest = rest ∧
      ∀ {ts : List Token} {stop : Scan}, past.Reads ts stop → s.Reads (t :: ts) stop := by
  obtain ⟨start, hstart, hrest⟩ := Passes.exists_of_rest g hs
  obtain ⟨past, hpast, rfl⟩ := Passes.exists_of_rest cs hrest
  exact ⟨start.tokenTo past kind text, past, rfl, rfl, rfl,
    fun later => .step hstart hg (hrest ▸ hno) hpast hcs later⟩

/-- A gap in front of the end of the text. -/
theorem finishes_of_gap (hs : Gap True s.rest) : ∃ t, s.Finishes t ∧ t.text = "" := by
  obtain ⟨start, hstart, hrest⟩ := Passes.exists_of_rest s.rest (List.append_nil _).symm
  exact ⟨_, ⟨hstart, hs, hrest⟩, rfl⟩

theorem Reads.kind_ne (h : s.Reads ts stop) : ∀ t ∈ ts, t.kind ≠ .eof := by
  induction h with
  | refl s => exact nofun
  | step hstart hg hno hpast hcs later ih => exact List.forall_mem_cons.mpr ⟨hcs.kind_ne, ih⟩

/-- The tokens that stand in a text are read. -/
theorem drain_of_reads (h : s.Reads ts stop) (hend : stop.Finishes t) :
    s.drain source = (ts ++ [t], none) := by
  induction h with
  | refl s =>
    obtain ⟨past, hnext⟩ := next_of_finishes hend
    exact drain_of_eof hnext (kind_of_finishes hend)
  | step hstart hg hno hpast hcs later ih =>
    exact drain_of_ok (next_of_lexeme hstart hg hno hpast hcs) hcs.kind_ne (ih hend)

/-- What is read stands in the text, up to its end or to the first failure. -/
theorem reads_of_drain {failure : Option Error} (h : s.drain source = (ts, failure)) :
    ∃ front stop, s.Reads front stop ∧
      ((∃ t, stop.Finishes t ∧ ts = front ++ [t] ∧ failure = none) ∨
        ∃ e, stop.Fails source e ∧ ts = front ∧ failure = some e) := by
  induction ts generalizing s with
  | nil =>
    obtain ⟨e, past, hnext, rfl⟩ := next_of_drain_nil h
    exact ⟨[], s, .refl s, Or.inr ⟨e, fails_of_next hnext, rfl, rfl⟩⟩
  | cons t ts ih =>
    obtain ⟨past, hnext, ⟨heof, rfl, rfl⟩ | ⟨hne, hpast⟩⟩ := next_of_drain_cons h
    · obtain hend | ⟨hne, -⟩ := next_ok_cases hnext
      · exact ⟨[], s, .refl s, Or.inl ⟨t, hend, rfl, rfl⟩⟩
      · exact absurd heof hne
    · obtain hend | ⟨-, hstep⟩ := next_ok_cases hnext
      · exact absurd (kind_of_finishes hend) hne
      · obtain ⟨front, stop, hreads, houtcome⟩ := ih hpast
        refine ⟨t :: front, stop, hstep hreads, ?_⟩
        obtain ⟨last, hend, rfl, hfailure⟩ | ⟨e, hfails, rfl, hfailure⟩ := houtcome
        · exact Or.inl ⟨last, hend, rfl, hfailure⟩
        · exact Or.inr ⟨e, hfails, rfl, hfailure⟩

end Scan

end SelectEngine
