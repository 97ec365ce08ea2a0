import SelectEngine.Proofs.Plan.Asked
import SelectEngine.Proofs.Plan.Graft

/-!
# The three truths of a condition divide the rows

On a combined row on which a condition can be tested it is true, false or unknown, and exactly what
asks for this truth holds (`Plan.holds_of_asked`). So the rows that are asked for with the three
truths are the rows of the plan without a condition, each given out to one of the three
(`Plan.rowsOf_asked`).
-/

set_option autoImplicit false

namespace SelectEngine

/-- The rows that have a truth, where the truths of all rows are listed beside them. -/
def Truth.select {α : Type} (t : Truth) (rows : List α) (truths : List Truth) : List α :=
  ((rows.zip truths).filter fun found => found.2 = t).map Prod.fst

theorem Truth.select_cons {α : Type} (t truth : Truth) (row : α) (rows : List α)
    (truths : List Truth) : t.select (row :: rows) (truth :: truths) =
      if truth = t then row :: t.select rows truths else t.select rows truths := by
  rw [select, List.zip_cons_cons, List.filter_cons]
  by_cases h : truth = t <;> simp [h, select]

/-! ## One row -/

/-- What asking for a truth gives where the condition has a truth. -/
def Truth.answer (t truth : Truth) : Truth :=
  match t with
  | some true => truth
  | some false => truth.not
  | none => some truth.isNone

/-- The answer is true only to what asks for the truth that the condition has. -/
theorem Truth.answer_eq_true (t truth : Truth) : t.answer truth = some true ↔ truth = t := by
  rcases t with _ | _ | _ <;> rcases truth with _ | _ | _ <;> decide

theorem Value.ofTruth_inj {t t' : Truth} (h : Value.ofTruth t = .ofTruth t') : t = t' := by
  cases t <;> cases t' <;> cases h <;> rfl

namespace Bound

variable {env : Environment (Except Error)} {b : Bound} {v : Value}

/-- The value of an operator on one operand is found from the value that the operand has alone. -/
theorem eval_unary {op : Operator} (h : (operation op [b]).eval env 0 = .ok v) :
    ∃ operand, b.eval env 0 = .ok operand ∧ op.applyUnary operand env.nulls = .ok v := by
  rw [eval] at h
  split at h
  · obtain ⟨vs, hvs, h⟩ := Outcome.bind_eq_ok h
    obtain ⟨-, operand, more, hoperand, hmore, rfl⟩ := evalAll_cons_eq_ok.mp hvs
    cases hmore
    rw [Outcome.relay_eq] at h
    exact ⟨operand, eval_of_succ hoperand, h⟩
  · cases h

/-- What asks a condition for a truth has the value that answers it. -/
theorem eval_askedBound {t truth : Truth} (h : (t.askedBound b).eval env 0 = .ok v)
    (hb : b.eval env 0 = .ok (.ofTruth truth)) : v = .ofTruth (t.answer truth) := by
  match t with
  | some true => exact Except.ok.inj (h.symm.trans hb)
  | some false | none =>
    obtain ⟨operand, hoperand, happly⟩ := eval_unary h
    obtain rfl : operand = .ofTruth truth := Except.ok.inj (hoperand.symm.trans hb)
    rcases truth with _ | _ | _ <;> cases happly <;> rfl

end Bound

namespace Plan

variable {plan : Plan} {env : Environment (Except Error)} {b : Bound} {kept : Bool} {truth : Truth}

/-- A condition that can be tested has a truth, and holds if this is true. -/
theorem exists_truth_of_holds (hpredicate : plan.predicate.map Prod.snd = some b)
    (h : plan.holds env = .ok kept) :
    ∃ truth, b.eval env 0 = .ok (.ofTruth truth) ∧ kept = decide (truth = some true) := by
  obtain ⟨⟨node, _⟩, hplan, rfl⟩ := Option.map_eq_some_iff.mp hpredicate
  rw [holds, hplan] at h
  obtain ⟨v, hv, h⟩ := Outcome.bind_eq_ok h
  cases v with
  | bool =>
    cases h
    exact ⟨some kept, hv, by simp⟩
  | null =>
    cases h
    exact ⟨none, hv, rfl⟩
  | _ => cases h

/-- Where a condition has a truth, what asks for a truth holds if it asks for this one. -/
theorem holds_of_asked {t : Truth} (hpredicate : plan.predicate.map Prod.snd = some (t.askedBound b))
    (h : plan.holds env = .ok kept) (hb : b.eval env 0 = .ok (.ofTruth truth)) :
    kept = decide (truth = t) := by
  obtain ⟨answer, hanswer, rfl⟩ := exists_truth_of_holds hpredicate h
  obtain rfl := Value.ofTruth_inj (Bound.eval_askedBound hanswer hb)
  exact decide_eq_decide.mpr (Truth.answer_eq_true t truth)

/-! ## All rows -/

/-- The rows that a plan makes of one combined row and the others. -/
theorem rowsOf_cons_eq_ok {settings : Settings} {params : Params} {first : CombinedRow}
    {rest : List CombinedRow} {rows : List (List Value)}
    (h : plan.rowsOf settings params (first :: rest) = .ok rows) :
    ∃ kept, plan.holds (Environment.onRows settings params first) = .ok kept ∧
      if kept then ∃ row later,
        Field.evalAll (Environment.onRows settings params first) plan.fields = .ok row ∧
          plan.rowsOf settings params rest = .ok later ∧ rows = row :: later
      else plan.rowsOf settings params rest = .ok rows := by
  obtain ⟨kept, hkept, h⟩ := Outcome.bind_eq_ok h
  refine ⟨kept, hkept, ?_⟩
  cases kept with
  | false => exact h
  | true =>
    obtain ⟨row, hrow, h⟩ := Outcome.bind_eq_ok h
    obtain ⟨later, hlater, h⟩ := Outcome.bind_eq_ok h
    cases h
    exact ⟨row, later, hrow, hlater, rfl⟩

/-- The rows of the plans that ask a condition for its truth are the rows of the plan without a
condition that have this truth, in their order. -/
theorem rowsOf_asked {asking : Truth → Plan} {settings : Settings} {params : Params}
    (hplan : plan.predicate = none)
    (hasking : ∀ t, (asking t).predicate.map Prod.snd = some (t.askedBound b))
    (hfields : ∀ t rows, Field.evalAll (Environment.onRows settings params rows) (asking t).fields =
      Field.evalAll (Environment.onRows settings params rows) plan.fields)
    {combined : List CombinedRow} {rows : List (List Value)} {found : Truth → List (List Value)}
    (hrows : plan.rowsOf settings params combined = .ok rows)
    (hfound : ∀ t, (asking t).rowsOf settings params combined = .ok (found t)) :
    ∃ truths : List Truth, truths.length = rows.length ∧
      ∀ t, found t = t.select rows truths := by
  induction combined generalizing rows found with
  | nil =>
    cases hrows
    exact ⟨[], rfl, fun t => (Except.ok.inj (hfound t)).symm⟩
  | cons first rest ih =>
    obtain ⟨kept, hkept, hrow⟩ := rowsOf_cons_eq_ok hrows
    rw [holds, hplan] at hkept
    cases hkept
    obtain ⟨row, later, hrow, hlater, rfl⟩ := hrow
    -- What asks for `true` is tested on this row, so the condition has a truth there.
    obtain ⟨kept, hkept, -⟩ := rowsOf_cons_eq_ok (hfound (some true))
    obtain ⟨truth, hb, -⟩ := exists_truth_of_holds (hasking (some true)) hkept
    have hothers : ∀ t, ∃ others, (asking t).rowsOf settings params rest = .ok others ∧
        found t = if truth = t then row :: others else others := by
      intro t
      obtain ⟨kept, hkept, hcons⟩ := rowsOf_cons_eq_ok (hfound t)
      obtain rfl := holds_of_asked (hasking t) hkept hb
      by_cases ht : truth = t
      · simp only [ht, decide_true, if_true, hfields] at hcons
        obtain ⟨row', others, hrow', hothers, heq⟩ := hcons
        obtain rfl : row = row' := Except.ok.inj (hrow.symm.trans hrow')
        exact ⟨others, hothers, by rw [heq, if_pos ht]⟩
      · simp only [ht, decide_false, Bool.false_eq_true, if_false] at hcons
        exact ⟨found t, hcons, by rw [if_neg ht]⟩
    choose others hrest hsplit using hothers
    obtain ⟨truths, hlength, hselect⟩ := ih hlater hrest
    refine ⟨truth :: truths, congrArg (· + 1) hlength, fun t => ?_⟩
    rw [hsplit, hselect, Truth.select_cons]

end Plan

end SelectEngine
