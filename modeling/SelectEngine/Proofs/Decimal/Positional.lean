import Mathlib.Algebra.Order.Field.Power
import Mathlib.Data.Rat.Cast.Order
import Mathlib.Tactic.FieldSimp
import Mathlib.Tactic.Ring
import SelectEngine.Double.Text
import SelectEngine.Proofs.Value.Written

/-!
# Positional decimals

Digits in front of a point and digits behind it spell a number (`Decimal.Spells`). A positional
decimal is spelled by its digits, and has a point only if some of them stand behind it
(`Decimal.exists_positional`). It is read as the double nearest to what the digits make without the
point, with an exponent for the places behind it (`Decimal.readDouble?_whole`,
`Decimal.readDouble?_point`).
-/

set_option autoImplicit false

namespace SelectEngine.Decimal

/-! ## Runs of digits -/

theorem valueOf_append_zeros (cs : List Char) (k : Nat) :
    valueOf (cs ++ List.replicate k '0') = valueOf cs * 10 ^ k := by
  show Nat.ofDigitChars 10 (cs ++ List.replicate k '0') 0 = Nat.ofDigitChars 10 cs 0 * 10 ^ k
  rw [Nat.ofDigitChars_append, Nat.ofDigitChars_replicate_zero, Nat.mul_comm]

theorem valueOf_zeros_append (k : Nat) (cs : List Char) :
    valueOf (List.replicate k '0' ++ cs) = valueOf cs := by
  show Nat.ofDigitChars 10 (List.replicate k '0' ++ cs) 0 = Nat.ofDigitChars 10 cs 0
  rw [Nat.ofDigitChars_append, Nat.ofDigitChars_replicate_zero, Nat.mul_zero]

/-- The digits of a number are the significant ones and the zeros behind them. -/
theorem exists_zeros (n : Nat) :
    ∃ k, Nat.toDigits 10 n = significantDigits n ++ List.replicate k '0' := by
  have hsplit := List.takeWhile_append_dropWhile (p := (· == '0')) (l := (Nat.toDigits 10 n).reverse)
  have hzeros : (Nat.toDigits 10 n).reverse.takeWhile (· == '0') =
      List.replicate ((Nat.toDigits 10 n).reverse.takeWhile (· == '0')).length '0' := by
    apply List.eq_replicate_of_mem
    intro c hc
    have hzero := List.mem_takeWhile_imp hc
    exact eq_of_beq hzero
  refine ⟨((Nat.toDigits 10 n).reverse.takeWhile (· == '0')).length, ?_⟩
  have hreverse := congrArg List.reverse hsplit
  rw [List.reverse_append, List.reverse_reverse, hzeros, List.reverse_replicate] at hreverse
  exact hreverse.symm

theorem isDigit_zero {k : Nat} {c : Char} (h : c ∈ List.replicate k '0') : c.isDigit = true := by
  rw [List.eq_of_mem_replicate h]
  rfl

/-! ## Positional decimals -/

/-- Digits in front of the point and digits behind it that make the number. -/
structure Spells (whole fraction : List Char) (y : ℚ) : Prop where
  ne_nil : whole ≠ []
  isDigit_whole : ∀ c ∈ whole, c.isDigit = true
  isDigit_fraction : ∀ c ∈ fraction, c.isDigit = true
  value : (valueOf (whole ++ fraction) : ℚ) / 10 ^ fraction.length = y

theorem Spells.valueOf_pos {whole fraction : List Char} {y : ℚ} (h : Spells whole fraction y)
    (hy : 0 < y) : 0 < valueOf (whole ++ fraction) := by
  have hplaces : (0 : ℚ) < 10 ^ fraction.length := pow_pos (by norm_num) _
  have hproduct := mul_pos hy hplaces
  rw [← h.value, div_mul_cancel₀ _ hplaces.ne'] at hproduct
  exact_mod_cast hproduct

/-- A natural number with a zero behind the point. -/
theorem spells_natural (n : Nat) : Spells (Nat.toDigits 10 n) ['0'] n where
  ne_nil := Nat.toDigits_ne_nil
  isDigit_whole _ := isDigit_of_mem_toDigits
  isDigit_fraction _ hc := List.mem_singleton.mp hc ▸ rfl
  value := by
    have hnat := valueOf_append_zeros (Nat.toDigits 10 n) 1
    rw [valueOf_toDigits] at hnat
    rw [show ['0'] = List.replicate 1 '0' from rfl, hnat, List.length_replicate]
    push_cast
    field_simp

section

variable {kept : List Char} {digits k : Nat} {e point : Int}
variable (hvalue : (digits : ℚ) = valueOf kept * 10 ^ k)

include hvalue in
/-- Whatever zeros are added, the places behind the point count what the exponent takes away. -/
theorem valueOf_scaled (places shift : Nat) (h : (shift : Int) - places = k + e) :
    ((valueOf kept * 10 ^ shift : Nat) : ℚ) / 10 ^ places = digits * 10 ^ e := by
  have hten : (10 : ℚ) ≠ 0 := by norm_num
  rw [hvalue, mul_assoc, ← zpow_natCast, ← zpow_natCast, ← zpow_add₀ hten, ← h, zpow_sub₀ hten]
  push_cast
  rw [zpow_natCast, zpow_natCast, mul_div_assoc]

variable (hdigits : ∀ c ∈ kept, c.isDigit = true) (hpoint : point = kept.length + k + e)

include hvalue hdigits hpoint

/-- All digits stand behind the point, and zeros between. -/
theorem spells_below (h : point ≤ 0) :
    Spells ['0'] (List.replicate (-point).toNat '0' ++ kept) (digits * 10 ^ e) where
  ne_nil := nofun
  isDigit_whole _ hc := List.mem_singleton.mp hc ▸ rfl
  isDigit_fraction c hc := (List.mem_append.mp hc).elim isDigit_zero (hdigits c)
  value := by
    have hzeros : ['0'] ++ (List.replicate (-point).toNat '0' ++ kept) =
        List.replicate (1 + (-point).toNat) '0' ++ kept := by
      rw [← List.append_assoc, List.replicate_add]
      rfl
    have hplaces := valueOf_scaled hvalue (e := e) ((-point).toNat + kept.length) 0 (by omega)
    rw [pow_zero, Nat.mul_one] at hplaces
    rw [hzeros, valueOf_zeros_append, List.length_append, List.length_replicate, hplaces]

/-- All digits stand in front of the point, and zeros between. -/
theorem spells_above (h : 0 < point) (hfits : kept.length ≤ point.toNat) :
    Spells (kept ++ List.replicate (point.toNat - kept.length) '0') [] (digits * 10 ^ e) where
  ne_nil hnil := by
    have hempty := congrArg List.length hnil
    rw [List.length_append, List.length_replicate, List.length_nil] at hempty
    omega
  isDigit_whole c hc := (List.mem_append.mp hc).elim (hdigits c) isDigit_zero
  isDigit_fraction := nofun
  value := by
    rw [List.append_nil, valueOf_append_zeros]
    exact valueOf_scaled hvalue 0 _ (by omega)

/-- The point stands among the digits. -/
theorem spells_among (h : 0 < point) (hover : point.toNat < kept.length) :
    Spells (kept.take point.toNat) (kept.drop point.toNat) (digits * 10 ^ e) where
  ne_nil hnil := by
    have hempty := congrArg List.length hnil
    rw [List.length_take, List.length_nil] at hempty
    omega
  isDigit_whole c hc := hdigits c (List.mem_of_mem_take hc)
  isDigit_fraction c hc := hdigits c (List.mem_of_mem_drop hc)
  value := by
    have hplaces := valueOf_scaled hvalue (e := e) (kept.length - point.toNat) 0 (by omega)
    rw [pow_zero, Nat.mul_one] at hplaces
    rw [List.take_append_drop, List.length_drop, hplaces]

end

/-- A positional decimal is whole, or has a point and an exponent below zero. -/
theorem exists_positional (digits : Nat) (e : Int) :
    ∃ whole fraction : List Char, Spells whole fraction (digits * 10 ^ e) ∧
      (positional digits e = whole ∧ fraction = [] ∨
        positional digits e = whole ++ '.' :: fraction ∧ e < 0) := by
  obtain ⟨k, hall⟩ := exists_zeros digits
  have hdigits : ∀ c ∈ significantDigits digits, c.isDigit = true := fun c hc =>
    isDigit_of_mem_toDigits (hall ▸ List.mem_append_left _ hc)
  have hlength : (Nat.toDigits 10 digits).length = (significantDigits digits).length + k := by
    rw [hall, List.length_append, List.length_replicate]
  have hpos : 0 < (significantDigits digits).length + k := hlength ▸ Nat.length_toDigits_pos
  have hvalue : (digits : ℚ) = valueOf (significantDigits digits) * 10 ^ k := by
    have hnat := valueOf_append_zeros (significantDigits digits) k
    rw [← hall, valueOf_toDigits] at hnat
    exact_mod_cast hnat
  have hpoint : ((Nat.toDigits 10 digits).length : Int) + e =
      (significantDigits digits).length + k + e := by
    rw [hlength]
    push_cast
    rfl
  unfold positional
  dsimp only
  generalize ((Nat.toDigits 10 digits).length : Int) + e = point at hpoint
  split
  · next hbelow =>
    exact ⟨_, _, spells_below hvalue hdigits hpoint hbelow, Or.inr ⟨rfl, by omega⟩⟩
  · split
    · next habove hfits =>
      exact ⟨_, _, spells_above hvalue hdigits hpoint (not_le.mp habove) hfits,
        Or.inl ⟨rfl, rfl⟩⟩
    · next habove hover =>
      exact ⟨_, _, spells_among hvalue hdigits hpoint (not_le.mp habove) (not_le.mp hover),
        Or.inr ⟨rfl, by omega⟩⟩

/-! ## Reading -/

variable {negative : Bool} {body whole fraction : List Char} {c : Char}

theorem toLower_of_isDigit (hc : c.isDigit = true) : c.toLower = c := by
  have hdigit := (Bool.and_eq_true_iff.mp hc).2
  have hle : c.toNat ≤ 57 := UInt32.le_iff_toNat_le.mp (of_decide_eq_true hdigit)
  have hcapital : ¬(c.val ≥ 'A'.val ∧ c.val ≤ 'Z'.val) := by
    rintro ⟨hletter, -⟩
    have hge : 65 ≤ c.toNat := UInt32.le_iff_toNat_le.mp hletter
    omega
  exact dif_neg hcapital

/-- A number with a digit in front is not the name of one. -/
theorem readDouble?_signed (hc : c.isDigit = true) :
    readDouble? (signed negative (c :: body)) = readUnsigned? negative (c :: body) := by
  have hname (name : String) (first : Char) (rest : List Char)
      (hchars : name.toList = first :: rest) (hfirst : first.isDigit = false) :
      String.ofList ((c :: body).map Char.toLower) ≠ name := by
    intro heq
    have hlist := congrArg String.toList heq
    rw [String.toList_ofList, hchars, List.map_cons, toLower_of_isDigit hc] at hlist
    rw [(List.cons.inj hlist).1, hfirst] at hc
    cases hc
  rw [readDouble?, readSign_signed hc]
  dsimp only
  rw [if_neg, if_neg]
  · exact hname "nan" 'n' _ rfl rfl
  · rintro (heq | heq)
    · exact hname "inf" 'i' _ rfl rfl heq
    · exact hname "infinity" 'i' _ rfl rfl heq

/-- Digits without a point. -/
theorem readDouble?_whole (hwhole : ∀ c ∈ whole, c.isDigit = true)
    (hne : whole ≠ []) :
    readDouble? (signed negative whole) = some (toDouble negative (valueOf whole) 0) := by
  obtain ⟨c, body, rfl⟩ := List.exists_cons_of_ne_nil hne
  rw [readDouble?_signed (hwhole c List.mem_cons_self), readUnsigned?]
  have htake : (c :: body).takeWhile Char.isDigit = c :: body := List.takeWhile_eq_self_iff.mpr hwhole
  have hdrop : (c :: body).dropWhile Char.isDigit = [] := List.dropWhile_eq_nil_iff.mpr hwhole
  rw [htake, hdrop]
  simp [readExponent?]

/-- Digits with a point among them. -/
theorem readDouble?_point {y : ℚ} (h : Spells whole fraction y) :
    readDouble? (signed negative (whole ++ '.' :: fraction)) =
      some (toDouble negative (valueOf (whole ++ fraction)) (-fraction.length)) := by
  obtain ⟨hne, hwhole, hfraction, -⟩ := h
  obtain ⟨c, body, rfl⟩ := List.exists_cons_of_ne_nil hne
  rw [List.cons_append, readDouble?_signed (hwhole c List.mem_cons_self),
    ← List.cons_append, readUnsigned?]
  have htake : ((c :: body) ++ '.' :: fraction).takeWhile Char.isDigit = c :: body := by
    rw [List.takeWhile_append_of_pos hwhole]
    simp
  have hdrop : ((c :: body) ++ '.' :: fraction).dropWhile Char.isDigit = '.' :: fraction := by
    rw [List.dropWhile_append_of_pos hwhole]
    simp
  have htake' : fraction.takeWhile Char.isDigit = fraction := List.takeWhile_eq_self_iff.mpr hfraction
  have hdrop' : fraction.dropWhile Char.isDigit = [] := List.dropWhile_eq_nil_iff.mpr hfraction
  rw [htake, hdrop]
  simp [readExponent?, htake', hdrop']

end SelectEngine.Decimal
