import SelectEngine.Token.Scan

/-!
# The tokens of a text one by one

`Scan.drain` reads all tokens that `Scan.next` answers one after the other.
-/

set_option autoImplicit false

namespace SelectEngine.Scan

variable {source : String} {s past : Scan} {t : Token} {ts : List Token} {failure : Option Error}

theorem drain_of_error {e : Error} (h : s.next source = (.error e, past)) :
    s.drain source = ([], some e) := by
  rw [drain]
  split
  · next h' =>
    cases h.symm.trans h'
    rfl
  · next h' => cases h.symm.trans h'

theorem drain_of_eof (h : s.next source = (.ok t, past)) (ht : t.kind = .eof) :
    s.drain source = ([t], none) := by
  rw [drain]
  split
  · next h' => cases h.symm.trans h'
  · next h' =>
    cases h.symm.trans h'
    rw [dif_pos ht]

theorem drain_of_ok (h : s.next source = (.ok t, past)) (ht : t.kind ≠ .eof)
    (hpast : past.drain source = (ts, failure)) : s.drain source = (t :: ts, failure) := by
  rw [drain]
  split
  · next h' => cases h.symm.trans h'
  · next h' =>
    cases h.symm.trans h'
    rw [dif_neg ht, hpast]

/-- A text without tokens fails at once. -/
theorem next_of_drain_nil (h : s.drain source = ([], failure)) :
    ∃ e past, s.next source = (.error e, past) ∧ failure = some e := by
  cases hnext : s.next source with
  | mk outcome past =>
    cases outcome with
    | error e =>
      rw [drain_of_error hnext] at h
      cases h
      exact ⟨e, past, rfl, rfl⟩
    | ok t =>
      by_cases ht : t.kind = .eof
      · rw [drain_of_eof hnext ht] at h
        cases h
      · rw [drain_of_ok hnext ht rfl] at h
        cases h

/-- The first token is the end of the text, or the others follow it. -/
theorem next_of_drain_cons (h : s.drain source = (t :: ts, failure)) :
    ∃ past, s.next source = (.ok t, past) ∧
      (t.kind = .eof ∧ ts = [] ∧ failure = none ∨
        t.kind ≠ .eof ∧ past.drain source = (ts, failure)) := by
  cases hnext : s.next source with
  | mk outcome past =>
    cases outcome with
    | error e =>
      rw [drain_of_error hnext] at h
      cases h
    | ok first =>
      refine ⟨past, ?_⟩
      by_cases ht : first.kind = .eof
      · rw [drain_of_eof hnext ht] at h
        cases h
        exact ⟨rfl, Or.inl ⟨ht, rfl, rfl⟩⟩
      · rw [drain_of_ok hnext ht rfl] at h
        cases h
        exact ⟨rfl, Or.inr ⟨ht, rfl⟩⟩

/-- Nothing is read behind the end of the text. -/
theorem drain_eof {front back : List Token} (h : s.drain source = (front ++ t :: back, failure))
    (ht : t.kind = .eof) : back = [] ∧ failure = none := by
  induction front generalizing s with
  | nil =>
    obtain ⟨past, -, ⟨-, hback, hfailure⟩ | ⟨hne, -⟩⟩ := next_of_drain_cons h
    · exact ⟨hback, hfailure⟩
    · exact absurd ht hne
  | cons first front ih =>
    obtain ⟨past, -, ⟨-, hnil, -⟩ | ⟨-, hpast⟩⟩ := next_of_drain_cons h
    · cases front <;> cases hnil
    · exact ih hpast

/-- A text without a failure is read to its end. -/
theorem exists_eof_of_drain (h : s.drain source = (ts, none)) : ∃ t ∈ ts, t.kind = .eof := by
  induction ts generalizing s with
  | nil =>
    obtain ⟨e, past, -, he⟩ := next_of_drain_nil h
    cases he
  | cons first ts ih =>
    obtain ⟨past, -, ⟨heof, -, -⟩ | ⟨-, hpast⟩⟩ := next_of_drain_cons h
    · exact ⟨first, List.mem_cons_self, heof⟩
    · obtain ⟨t, ht, heof⟩ := ih hpast
      exact ⟨t, List.mem_cons_of_mem first ht, heof⟩

end SelectEngine.Scan
