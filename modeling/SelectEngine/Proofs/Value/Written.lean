import SelectEngine.Proofs.Grammar.Literal
import SelectEngine.Proofs.Plan.Meaning
import SelectEngine.Proofs.Token.Written

/-!
# Values that are written as literals

A null, a text and an integer that is not negative have a literal, `Value.literal`, that is the
spelling of one token. The expression that the grammar makes of this token stands for the value
again (`Value.Written.exists_literal`).
-/

set_option autoImplicit false

namespace SelectEngine

/-! ## Digits -/

theorem Text.isSpace_of_isDigit {c : Char} (h : c.isDigit = true) : Text.isSpace c = false := by
  simp only [Char.isDigit, Bool.and_eq_true, decide_eq_true_eq, UInt32.le_iff_toNat_le] at h
  have hc : 48 ≤ c.toNat ∧ c.toNat ≤ 57 := h
  clear h
  simp only [Text.isSpace, Text.blankRanges, List.any_cons, List.any_nil, Bool.or_eq_false_iff,
    Bool.and_eq_false_iff, decide_eq_false_iff_not, and_true]
  omega

/-- Text without white space has none at its ends. -/
theorem Text.trim_of_not_space {cs : List Char} (h : ∀ c ∈ cs, Text.isSpace c = false) :
    Text.trim cs = cs := by
  have hspaces : ∀ {cs : List Char}, (∀ c ∈ cs, Text.isSpace c = false) →
      cs.dropWhile Text.isSpace = cs :=
    fun hcs => Scan.dropWhile_of_head fun c hc => hcs c (List.mem_of_mem_head? hc)
  have hreverse : ∀ c ∈ cs.reverse, Text.isSpace c = false := fun c hc => h c (List.mem_reverse.mp hc)
  rw [Text.trim, hspaces h, hspaces hreverse, List.reverse_reverse]

namespace Decimal

/-- The sign in front of a number. -/
def signed (negative : Bool) (body : List Char) : List Char := if negative then '-' :: body else body

variable {negative : Bool} {c : Char} {body digits : List Char}

theorem readSign_signed (hc : c.isDigit = true) :
    readSign (signed negative (c :: body)) = (negative, c :: body) := by
  cases negative with
  | true => rfl
  | false =>
    unfold signed readSign
    split
    · next heq =>
      cases heq
      exact absurd hc (by decide)
    · next heq =>
      cases heq
      exact absurd hc (by decide)
    · rfl

theorem mem_signed (h : c ∈ signed negative body) : c = '-' ∨ c ∈ body := by
  cases negative with
  | true => exact List.mem_cons.mp h
  | false => exact Or.inr h

theorem isDigit_of_mem_toDigits {n : Nat} (h : c ∈ Nat.toDigits 10 n) : c.isDigit = true :=
  Nat.isDigit_of_mem_toDigits (by decide) (by decide) h

theorem valueOf_toDigits (n : Nat) : valueOf (Nat.toDigits 10 n) = n :=
  Nat.ofDigitChars_toDigits (by decide) (by decide)

/-- A run of digits is read as its value, whatever zeros stand in front. -/
theorem readInt?_signed (hdigits : ∀ c ∈ digits, c.isDigit = true) (hne : digits ≠ []) :
    readInt? (signed negative digits) =
      some (if negative then -(valueOf digits : Int) else valueOf digits) := by
  obtain ⟨c, body, rfl⟩ := List.exists_cons_of_ne_nil hne
  have hall : (c :: body).any (fun c => !c.isDigit) = false :=
    List.any_eq_false.mpr fun c hc => by simp [hdigits c hc]
  rw [readInt?, readSign_signed (hdigits c List.mem_cons_self)]
  simp only [hne, hall, Bool.false_eq_true, or_self, if_false]

end Decimal

namespace Value

open Decimal (signed valueOf)

variable {negative : Bool} {digits : List Char} {i : Int64}

theorem ofInt?_toInt (i : Int64) : ofInt? i.toInt = some (.integer i) := by
  have hleast := i.le_toInt
  have hgreatest := i.toInt_lt
  rw [ofInt?, if_pos (by omega), Int64.ofInt_toInt]

theorem trim_signed (hdigits : ∀ c ∈ digits, c.isDigit = true) :
    Text.trim (signed negative digits) = signed negative digits := by
  apply Text.trim_of_not_space
  intro c hc
  rcases Decimal.mem_signed hc with rfl | hc
  · decide
  · exact Text.isSpace_of_isDigit (hdigits c hc)

theorem not_mem_point (hdigits : ∀ c ∈ digits, c.isDigit = true) :
    (signed negative digits).contains '.' = false := by
  rw [List.contains_eq_mem, decide_eq_false_iff_not]
  intro hmem
  rcases Decimal.mem_signed hmem with heq | hmem
  · cases heq
  · exact absurd (hdigits '.' hmem) (by decide)

/-- Digits without a point are the integer that they write, if that fits. -/
theorem ofNumeral_signed (negative : Bool) (hdigits : ∀ c ∈ digits, c.isDigit = true) (hne : digits ≠ [])
    (hvalue : (if negative then -(valueOf digits : Int) else valueOf digits) = i.toInt) :
    ofNumeral (String.ofList (signed negative digits)) = .ok (.integer i) := by
  rw [ofNumeral, String.toList_ofList, trim_signed hdigits]
  simp only [not_mem_point hdigits, Bool.false_eq_true, if_false,
    Decimal.readInt?_signed hdigits hne, Option.bind_some, hvalue, ofInt?_toInt, Option.orElse_some]

/-- The digits of an integer are read as the integer. -/
theorem ofNumeral_toDigits (h : 0 ≤ i.toInt) :
    ofNumeral (String.ofList (Nat.toDigits 10 i.toInt.toNat)) = .ok (.integer i) := by
  have hvalue : (valueOf (Nat.toDigits 10 i.toInt.toNat) : Int) = i.toInt := by
    rw [Decimal.valueOf_toDigits, Int.toNat_of_nonneg h]
  exact ofNumeral_signed false (fun c => Decimal.isDigit_of_mem_toDigits)
    Nat.toDigits_ne_nil hvalue

/-! ## Literals -/

theorem doubleQuotes_eq (cs : List Char) : doubleQuotes cs = doubled '\'' cs := by
  induction cs with
  | nil => rfl
  | cons c cs ih =>
    rw [doubleQuotes, List.flatMap_cons, ← doubleQuotes, ih, doubled]
    split <;> rfl

theorem toList_literal_integer {i : Int64} (h : 0 ≤ i.toInt) :
    (integer i).literal.toList = Nat.toDigits 10 i.toInt.toNat := by
  obtain ⟨n, hn⟩ := Int.eq_ofNat_of_zero_le h
  rw [literal, hn]
  show (Nat.repr n).toList = Nat.toDigits 10 n
  rw [Nat.repr_eq_ofList_toDigits, String.toList_ofList]

/-- The literal of the value is a single token. -/
def Written : Value → Prop
  | null | text _ => True
  | integer i => 0 ≤ i.toInt
  | bool _ | double _ | blob _ => False

end Value

variable {τ : Type}

/-- Where leaves stand for words, the expression is a literal of the value. -/
inductive Expr.Denotes (word : τ → String) : Expr τ → Value → Prop
  | text (leaf : τ) : Denotes word (.text leaf) (.text (word leaf))
  | number {leaf : τ} {v : Value} (h : Value.ofNumeral (word leaf) = .ok v) :
      Denotes word (.number leaf) v
  | null (leaf : τ) : Denotes word (.null leaf) .null

namespace Expr.Denotes

variable {β : Binder τ} {e : Expr τ} {v : Value}

theorem bind (h : e.Denotes β.word v) (depth : Nat) : e.bind β depth = .ok (.literal (.ok v)) := by
  cases h with
  | text leaf => rfl
  | number h => rw [Expr.bind, h]
  | null leaf => rfl

theorem outputs (h : e.Denotes β.word v) (settings : Settings) (given : Option String)
    (generated : Nat) :
    e.outputs β settings given generated =
      .ok (Output.named settings given generated (Output.static v)) := by
  cases h with
  | text leaf => rfl
  | number h => simp only [Expr.outputs, h, Outcome.ok_bind]
  | null leaf => rfl

end Expr.Denotes

open Grammar

/-- The literal of a value spells a token, of which the grammar makes an expression that stands for
the value. -/
theorem Value.Written.exists_literal {v : Value} (h : v.Written) :
    ∃ kind text, kind ≠ .question ∧ Spelling kind text v.literal.toList ∧
      ∀ leaf : τ, ∃ e, literal? kind leaf = some e ∧
        ∀ word : τ → String, word leaf = String.ofList text → e.Denotes word v := by
  cases v with
  | null =>
    have hspells : SpellsKeyword Value.null.literal.toList .kwNull := ⟨by decide, by decide⟩
    exact ⟨.kwNull, _, nofun, hspells.spelling, fun leaf => ⟨_, rfl, fun word _ => .null leaf⟩⟩
  | text s =>
    refine ⟨.string, s.toList, nofun, ?_, fun leaf => ⟨_, rfl, fun word hword => ?_⟩⟩
    · rw [literal, String.toList_ofList, doubleQuotes_eq]
      exact .string s.toList
    · rw [String.ofList_toList] at hword
      have htext : Expr.Denotes word (.text leaf) (.text (word leaf)) := .text leaf
      rwa [hword] at htext
  | integer i =>
    refine ⟨.number, Nat.toDigits 10 i.toInt.toNat, nofun, ?_, fun leaf =>
      ⟨.number leaf, rfl, fun word hword => .number ?_⟩⟩
    · rw [toList_literal_integer h]
      have hdigits : ∀ c ∈ Nat.toDigits 10 i.toInt.toNat, c.isDigit = true :=
        fun c => Decimal.isDigit_of_mem_toDigits
      obtain ⟨d, ds, hds⟩ := List.exists_cons_of_ne_nil (Nat.toDigits_ne_nil (b := 10)
        (n := i.toInt.toNat))
      rw [hds] at hdigits ⊢
      exact .whole hdigits
    · rw [hword, ofNumeral_toDigits h]
  | bool b => exact h.elim
  | double d => exact h.elim
  | blob bytes => exact h.elim

end SelectEngine
