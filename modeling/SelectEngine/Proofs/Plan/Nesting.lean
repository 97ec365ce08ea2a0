import SelectEngine.Proofs.Plan.Meaning

/-!
# Nesting and labels of expressions

The depth at which an expression stands decides only whether it is refused as nested too deep: what
is bound or evaluated inside an operator is bound to the same and has the same value outside
(`Expr.bind_of_succ`, `Bound.eval_of_succ`). Nor does it matter how the leaves of an expression are
labelled, if the binder knows the labels (`Expr.bind_map`).
-/

set_option autoImplicit false

namespace SelectEngine

variable {τ ρ : Type}

/-! ## Depth -/

theorem Binder.guardDepth_of_succ {β : Binder τ} {depth : Nat} {u : Unit}
    (h : β.guardDepth (depth + 1) = .ok u) : β.guardDepth depth = .ok () := by
  unfold guardDepth at h ⊢
  split at h
  · cases h
  · next hroom => exact if_neg (by omega)

namespace Expr

mutual

/-- What is bound one deeper is bound to the same. -/
theorem bind_of_succ {β : Binder τ} : ∀ {e : Expr τ} {depth : Nat} {b : Bound},
    e.bind β (depth + 1) = .ok b → e.bind β depth = .ok b
  | .text _, _, _, h | .number _, _, _, h | .null _, _, _, h | .param _, _, _, h
  | .name _, _, _, h => h
  | .call function args, depth, b, h => by
    obtain ⟨f, hf, h⟩ := Outcome.bind_eq_ok h
    obtain ⟨u, hguard, h⟩ := Outcome.bind_eq_ok h
    obtain ⟨es, hes, h⟩ := Outcome.bind_eq_ok h
    rw [bind, hf, Outcome.ok_bind, Binder.guardDepth_of_succ hguard, Outcome.ok_bind,
      bindAll_of_succ hes]
    exact h
  | .unary op operand, depth, b, h => by
    obtain ⟨u, hguard, h⟩ := Outcome.bind_eq_ok h
    obtain ⟨e, he, h⟩ := Outcome.bind_eq_ok h
    rw [bind, Binder.guardDepth_of_succ hguard, Outcome.ok_bind, bind_of_succ he]
    exact h
  | .binary op left right, depth, b, h => by
    obtain ⟨u, hguard, h⟩ := Outcome.bind_eq_ok h
    obtain ⟨l, hl, h⟩ := Outcome.bind_eq_ok h
    obtain ⟨r, hr, h⟩ := Outcome.bind_eq_ok h
    rw [bind, Binder.guardDepth_of_succ hguard, Outcome.ok_bind, bind_of_succ hl, Outcome.ok_bind,
      bind_of_succ hr]
    exact h

theorem bindAll_of_succ {β : Binder τ} : ∀ {es : List (Expr τ)} {depth : Nat} {bs : List Bound},
    bindAll β (depth + 1) es = .ok bs → bindAll β depth es = .ok bs
  | [], _, _, h => h
  | e :: es, depth, bs, h => by
    obtain ⟨b, hb, h⟩ := Outcome.bind_eq_ok h
    obtain ⟨more, hmore, h⟩ := Outcome.bind_eq_ok h
    rw [bindAll, bind_of_succ hb, Outcome.ok_bind, bindAll_of_succ hmore]
    exact h

end

end Expr

namespace Bound

theorem evalAll_cons_eq_ok {env : Environment (Except Error)} {b : Bound} {bs : List Bound}
    {depth : Nat} {vs : List Value} : evalAll env depth (b :: bs) = .ok vs ↔
      depth < env.maxDepth ∧ ∃ v more, b.eval env (depth + 1) = .ok v ∧
        evalAll env depth bs = .ok more ∧ vs = v :: more := by
  rw [evalAll]
  by_cases hdeep : env.maxDepth ≤ depth
  · rw [if_pos hdeep]
    exact ⟨nofun, fun h => absurd h.1 (Nat.not_lt.mpr hdeep)⟩
  · rw [if_neg hdeep]
    constructor
    · intro h
      obtain ⟨v, hv, h⟩ := Outcome.bind_eq_ok h
      obtain ⟨more, hmore, h⟩ := Outcome.bind_eq_ok h
      cases h
      exact ⟨Nat.lt_of_not_le hdeep, v, more, hv, hmore, rfl⟩
    · rintro ⟨-, v, more, hv, hmore, rfl⟩
      show (b.eval env (depth + 1) >>= fun v => evalAll env depth bs >>= fun more =>
        .ok (v :: more)) = .ok (v :: more)
      rw [hv, Outcome.ok_bind, hmore]
      rfl

mutual

/-- What has a value one deeper has the same value. -/
theorem eval_of_succ {env : Environment (Except Error)} : ∀ {b : Bound} {depth : Nat} {v : Value},
    b.eval env (depth + 1) = .ok v → b.eval env depth = .ok v
  | .literal _, _, _, h | .param _, _, _, h | .column _, _, _, h | .unbound _ _, _, _, h
  | .other _, _, _, h => h
  | .call function args, depth, v, h => by
    rw [eval] at h ⊢
    obtain ⟨vs, hvs, h⟩ := Outcome.bind_eq_ok h
    rw [evalAll_of_succ hvs]
    exact h
  | .operation op operands, depth, v, h => by
    rw [eval] at h ⊢
    split at h
    · next harity =>
      obtain ⟨vs, hvs, h⟩ := Outcome.bind_eq_ok h
      rw [if_pos harity, evalAll_of_succ hvs]
      exact h
    · cases h

theorem evalAll_of_succ {env : Environment (Except Error)} : ∀ {bs : List Bound} {depth : Nat}
    {vs : List Value}, evalAll env (depth + 1) bs = .ok vs → evalAll env depth bs = .ok vs
  | [], _, _, h => h
  | b :: bs, depth, vs, h => by
    obtain ⟨hroom, v, more, hv, hmore, rfl⟩ := evalAll_cons_eq_ok.mp h
    exact evalAll_cons_eq_ok.mpr
      ⟨Nat.lt_of_succ_lt hroom, v, more, eval_of_succ hv, evalAll_of_succ hmore, rfl⟩

end

end Bound

/-! ## Labels -/

/-- The binder of expressions whose leaves are labelled by what `f` takes to its own labels. -/
def Binder.comap (f : ρ → τ) (β : Binder τ) : Binder ρ where
  word leaf := β.word (f leaf)
  ordinal leaf := β.ordinal (f leaf)
  scope := β.scope
  registry := β.registry
  maxDepth := β.maxDepth

namespace Expr

theorem length_mapAll (f : ρ → τ) (es : List (Expr ρ)) : (mapAll f es).length = es.length := by
  induction es with
  | nil => rfl
  | cons e es ih => rw [mapAll, List.length_cons, List.length_cons, ih]

mutual

/-- Binding a relabelled expression is binding the expression. -/
theorem bind_map (f : ρ → τ) (β : Binder τ) : ∀ (e : Expr ρ) (depth : Nat),
    (e.map f).bind β depth = e.bind (β.comap f) depth
  | .text _, _ | .number _, _ | .null _, _ | .param _, _ => rfl
  | .name parts, _ => by
    rw [map, bind, bind, Binder.column, Binder.column, List.map_map]
    rfl
  | .call function args, depth => by
    rw [map, bind, bind, bindAll_map f β args, length_mapAll]
    rfl
  | .unary op operand, depth => by
    rw [map, bind, bind, bind_map f β operand]
    rfl
  | .binary op left right, depth => by
    rw [map, bind, bind, bind_map f β left, bind_map f β right]
    rfl

theorem bindAll_map (f : ρ → τ) (β : Binder τ) : ∀ (es : List (Expr ρ)) (depth : Nat),
    bindAll β depth (mapAll f es) = bindAll (β.comap f) depth es
  | [], _ => rfl
  | e :: es, depth => by
    rw [mapAll, bindAll, bindAll, bind_map f β e, bindAll_map f β es]

end

end Expr

end SelectEngine
