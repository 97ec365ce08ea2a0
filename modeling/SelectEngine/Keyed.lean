/-!
# Lists of keyed entries

A list of pairs stands for a finite map: a key has the value of its first entry. `put` gives a key a
value in place of the one that it had, so that every key keeps at most one entry.
-/

set_option autoImplicit false

namespace SelectEngine.Keyed

variable {κ α : Type} [BEq κ] [LawfulBEq κ]

/-- Gives a key a value, in place of the one that it had. -/
def put (key : κ) (a : α) (entries : List (κ × α)) : List (κ × α) :=
  (key, a) :: entries.filter (·.1 != key)

theorem lookup_filter_of_ne {key other : κ} (h : other ≠ key) (entries : List (κ × α)) :
    (entries.filter (·.1 != key)).lookup other = entries.lookup other := by
  induction entries with
  | nil => rfl
  | cons e rest ih =>
    obtain ⟨k, a⟩ := e
    rw [List.filter_cons]
    by_cases hk : k = key
    · subst hk
      have hne : (other == k) = false := beq_eq_false_iff_ne.mpr h
      simp [List.lookup_cons, hne, ih]
    · have hkeep : (k != key) = true := bne_iff_ne.mpr hk
      simp only [hkeep, if_true, List.lookup_cons, ih]

/-- The key has the new value, and all others have what they had. -/
theorem lookup_put [DecidableEq κ] (key other : κ) (a : α) (entries : List (κ × α)) :
    (put key a entries).lookup other = if other = key then some a else entries.lookup other := by
  unfold put
  rw [List.lookup_cons]
  by_cases h : other = key
  · simp [h]
  · have hne : (other == key) = false := beq_eq_false_iff_ne.mpr h
    simp only [hne, if_neg h, lookup_filter_of_ne h]

end SelectEngine.Keyed
