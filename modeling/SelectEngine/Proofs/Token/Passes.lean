import SelectEngine.Proofs.Token.Spelling

/-!
# The characters between two places of a text

`Scan.Passes s cs past` says that reading went from the place `s` over the characters `cs` to the
place `past`. The offsets of the two places differ by the bytes of these characters, whatever way
of reading led from the one to the other.
-/

set_option autoImplicit false

namespace SelectEngine

/-! ## Bytes of a run of characters -/

theorem foldl_byteLength (n : Nat) :
    ∀ cs : List Char, cs.foldl (fun n c => n + c.utf8Size) n = n + byteLength cs
  | [] => rfl
  | c :: cs => by
    rw [byteLength, List.foldl_cons, List.foldl_cons, foldl_byteLength (n + c.utf8Size) cs,
      foldl_byteLength (0 + c.utf8Size) cs, Nat.zero_add, Nat.add_assoc]

@[simp] theorem byteLength_nil : byteLength [] = 0 := rfl

@[simp] theorem byteLength_cons (c : Char) (cs : List Char) :
    byteLength (c :: cs) = c.utf8Size + byteLength cs := by
  rw [byteLength, List.foldl_cons, foldl_byteLength, Nat.zero_add]

@[simp] theorem byteLength_append (front back : List Char) :
    byteLength (front ++ back) = byteLength front + byteLength back := by
  induction front with
  | nil => simp
  | cons c front ih => rw [List.cons_append, byteLength_cons, byteLength_cons, ih, Nat.add_assoc]

theorem byteLength_pos {cs : List Char} (h : cs ≠ []) : 0 < byteLength cs := by
  obtain ⟨c, others, rfl⟩ := List.exists_cons_of_ne_nil h
  have hc := c.utf8Size_pos
  rw [byteLength_cons]
  omega

/-- The characters of a text take the bytes of the text. -/
theorem byteLength_toList (text : String) : byteLength text.toList = text.utf8ByteSize := by
  have h : ∀ cs : List Char, byteLength cs = (String.ofList cs).utf8ByteSize := by
    intro cs
    induction cs with
    | nil => rfl
    | cons c cs ih =>
      rw [byteLength_cons, ih, String.ofList_cons, String.utf8ByteSize_append,
        String.utf8ByteSize_singleton]
  rw [h, String.ofList_toList]

/-- Prefixes of one text with equally many bytes are equal. -/
theorem prefix_of_byteLength_eq {front front' back back' : List Char}
    (h : front ++ back = front' ++ back') (hbytes : byteLength front = byteLength front') :
    front = front' ∧ back = back' := by
  induction front generalizing front' with
  | nil =>
    cases front' with
    | nil => exact ⟨rfl, h⟩
    | cons c front' => exact absurd hbytes (Nat.ne_of_lt (byteLength_pos (List.cons_ne_nil _ _)))
  | cons c front ih =>
    cases front' with
    | nil =>
      exact absurd hbytes (Nat.ne_of_gt (byteLength_pos (List.cons_ne_nil _ _)))
    | cons d front' =>
      obtain ⟨rfl, htail⟩ := List.cons.inj h
      rw [byteLength_cons, byteLength_cons] at hbytes
      obtain ⟨rfl, hback⟩ := ih htail (Nat.add_left_cancel hbytes)
      exact ⟨rfl, hback⟩

namespace Scan

/-- Reading goes from the first place over the characters to the second. -/
inductive Passes : Scan → List Char → Scan → Prop
  | refl (s : Scan) : Passes s [] s
  | step {s past : Scan} {c : Char} {cs rest : List Char} (h : s.rest = c :: rest)
      (later : Passes s.advance cs past) : Passes s (c :: cs) past

namespace Passes

variable {s middle past : Scan} {cs ds rest : List Char}

theorem rest_eq (h : s.Passes cs past) : s.rest = cs ++ past.rest := by
  induction h with
  | refl s => rfl
  | step h later ih =>
    rw [rest_advance, h, List.tail_cons] at ih
    rw [h, ih, List.cons_append]

theorem offset_advance {c : Char} (h : s.rest = c :: rest) :
    s.advance.offset = s.offset + c.utf8Size := by
  obtain ⟨_, offset, line⟩ := s
  subst h
  rfl

theorem offset_eq (h : s.Passes cs past) : past.offset = s.offset + byteLength cs := by
  induction h with
  | refl s => rfl
  | step h later ih => rw [ih, offset_advance h, byteLength_cons, Nat.add_assoc]

theorem trans (h : s.Passes cs middle) (h' : middle.Passes ds past) :
    s.Passes (cs ++ ds) past := by
  induction h with
  | refl s => exact h'
  | step h later ih => exact .step h (ih h')

/-- Over characters that are there reading can go. -/
theorem exists_of_rest : ∀ {s : Scan} (cs : List Char), s.rest = cs ++ rest →
    ∃ past, s.Passes cs past ∧ past.rest = rest
  | s, [], h => ⟨s, .refl s, h⟩
  | s, c :: cs, h => by
    have hlater : s.advance.rest = cs ++ rest := by rw [rest_advance, h]; rfl
    obtain ⟨past, hpast, hrest⟩ := exists_of_rest cs hlater
    exact ⟨past, .step h hpast, hrest⟩

/-- The characters and the start determine the end. -/
theorem unique {past' : Scan} (h : s.Passes cs past) (h' : s.Passes cs past') : past = past' := by
  induction h with
  | refl s =>
    cases h'
    rfl
  | step h later ih =>
    cases h' with
    | step _ later' => exact ih later'

/-- The span between the places covers the characters. -/
theorem spanTo_eq (h : s.Passes cs past) :
    s.spanTo past = ⟨s.offset, byteLength cs, s.line.toNat⟩ := by
  rw [spanTo, h.offset_eq, Nat.add_sub_cancel_left]

theorem single {c : Char} (h : s.rest = c :: rest) : s.Passes [c] s.advance := .step h (.refl _)

theorem skip (p : Char → Bool) (s : Scan) : s.Passes (s.rest.takeWhile p) (s.skip p) := by
  obtain ⟨cs, offset, line⟩ := s
  induction cs generalizing offset line with
  | nil => exact .refl _
  | cons c cs ih =>
    by_cases hc : p c = true
    · rw [skip_of_pos rfl hc, List.takeWhile_cons_of_pos hc]
      exact .step rfl (ih _ _)
    · have hhead : ∀ d ∈ (c :: cs).head?, p d = false := by
        intro d hd
        cases hd
        exact Bool.eq_false_iff.mpr hc
      rw [skip_of_head hhead, takeWhile_of_head hhead]
      exact .refl _

theorem advanceBy : ∀ (n : Nat) (s : Scan), s.Passes (s.rest.take n) (advanceBy n s)
  | 0, s => by
    rw [List.take_zero]
    exact .refl s
  | n + 1, s => by
    cases h : s.rest with
    | nil =>
      have hstay : s.advance = s := by
        obtain ⟨_, offset, line⟩ := s
        subst h
        rfl
      have ih := advanceBy n s
      rwa [h, List.take_nil, ← congrArg (Scan.advanceBy n) hstay] at ih
    | cons c cs =>
      have ih := advanceBy n s.advance
      rw [rest_advance, h] at ih
      exact .step h ih

end Passes

end Scan

end SelectEngine
