import SelectEngine.Proofs.Correspondence.Evaluation
import SelectEngine.Proofs.Cursor.Request

/-!
# Strict null handling only refuses

A statement is bound without regard to how nulls are handled (`Cursor.prepare_under`). What is found
under strict handling is what is found where nulls propagate, unless a null operand is refused on the
way: one correspondence between the two runs (`Correspondence.refusing`) holds of every operator, so
of every expression, and is kept by all that a cursor does with the values of expressions. No value,
no row and no other failure can come of the stricter handling.
-/

set_option autoImplicit false

namespace SelectEngine

variable {σ γ α β s t : Type}

/-! ## The same work under another handling of nulls -/

/-- The settings with another handling of nulls. -/
def Settings.under (settings : Settings) (nulls : NullMode) : Settings := { settings with nulls }

/-- The cursor with another handling of nulls. -/
def Cursor.under (c : Cursor σ γ) (nulls : NullMode) : Cursor σ γ :=
  { c with settings := c.settings.under nulls }

/-- The failure is the refusal of a null operand. -/
def Error.RefusesNull (e : Error) : Prop := ∃ op : Operator, e = .nullValue op.symbol

/-- The first outcome is the second one, unless it is the refusal of a null operand. -/
def CutShort (x y : Except Error α) : Prop :=
  (∃ e : Error, x = .error e ∧ e.RefusesNull) ∨ x = y

/-! ## Binding -/

section Binding

variable {m : Type → Type} [Monad m] [MonadExceptOf Error m]

mutual

theorem Resolver.select_under (r : Resolver m) (settings : Settings) (nulls : NullMode) :
    ∀ b : Branch, r.select (settings.under nulls) b = r.select settings b
  | .node id kind children => by
    cases kind with
    | attributes =>
      simp only [Resolver.select]
      exact Resolver.selectAll_under r settings nulls children
    | renamed =>
      simp only [Resolver.select, Resolver.selectFirst_under r settings nulls children]
    | _ => rfl

theorem Resolver.selectAll_under (r : Resolver m) (settings : Settings) (nulls : NullMode) :
    ∀ bs : List Branch, r.selectAll (settings.under nulls) bs = r.selectAll settings bs
  | [] => rfl
  | b :: bs => by
    simp only [Resolver.selectAll, Resolver.select_under r settings nulls b,
      Resolver.selectAll_under r settings nulls bs]

theorem Resolver.selectFirst_under (r : Resolver m) (settings : Settings) (nulls : NullMode) :
    ∀ bs : List Branch, r.selectFirst (settings.under nulls) bs = r.selectFirst settings bs
  | [] => rfl
  | b :: _ => Resolver.select_under r settings nulls b

end

theorem Plan.ofScope_under (tree : Tree) (statement : Branch) (scope : Scope m)
    (registry : Registry) (settings : Settings) (nulls : NullMode) :
    Plan.ofScope tree statement scope registry (settings.under nulls) =
      Plan.ofScope tree statement scope registry settings := by
  simp only [Plan.ofScope, Plan.resolved, Resolver.select_under]
  rfl

end Binding

/-- A statement is prepared alike under every handling of nulls, or fails to be alike. -/
theorem Cursor.prepare_under (B : Backend σ γ) (registry : Registry) (settings : Settings)
    (nulls : NullMode) (text : String) (world : γ) :
    Cursor.prepare B registry (settings.under nulls) text world =
      (Cursor.prepare B registry settings text world).map (·.under nulls) := by
  have hreading : (settings.under nulls).reading = settings.reading := rfl
  rw [Cursor.prepare, Cursor.prepare, hreading]
  cases parse settings.reading text with
  | error e => rfl
  | ok tree =>
    have hbind : Session.bind B registry (settings.under nulls) tree =
        Session.bind B registry settings tree := by
      simp only [Session.bind, Plan.ofScope_under]
    dsimp only
    rw [Cursor.ofTree, Cursor.ofTree, hbind]
    cases Session.bind B registry settings tree ⟨[], world⟩ <;> rfl

/-! ## Two runs, the first of which may refuse a null -/

/-- Where the first computation does not refuse a null operand, it gives what the second one gives
from the image of its state, and its last state has as image the last state of the second. -/
def Correspondence.refusing (view : s → t) : Correspondence (Run s) (Run t) where
  rel x y := ∀ state, match x state with
    | .ok a later => y (view state) = .ok a (view later)
    | .error e later => e.RefusesNull ∨ y (view state) = .error e (view later)
  returning _ _ := rfl
  failing _ _ := Or.inr rfl
  sequencing {_ _ x y f g} hx hf := by
    intro state
    have hfirst := hx state
    rw [Run.bind_apply]
    cases hstep : x state with
    | ok a later =>
      rw [hstep] at hfirst
      rw [Run.bind_of_ok hfirst]
      exact hf a later
    | error e later =>
      rw [hstep] at hfirst
      exact hfirst.imp_right Run.bind_of_error

namespace Run

open Correspondence (refusing)

variable {view : s → t}

theorem refusing_get {f : s → Run s α} {g : t → Run t α}
    (h : ∀ state, (refusing view).rel (f state) (g (view state))) :
    (refusing view).rel (get >>= f) (get >>= g) := by
  intro state
  rw [Run.bind_of_ok (Run.get_apply state), Run.bind_of_ok (Run.get_apply (view state))]
  exact h state state

theorem refusing_modify {f : s → s} {g : t → t} (h : ∀ state, view (f state) = g (view state)) :
    (refusing view).rel (modify f) (modify g) := by
  intro state
  simp only [Run.modify_apply, h]

/-- A computation has itself as image. -/
theorem refusing_refl (x : Run s α) : (refusing id).rel x x := by
  intro state
  cases hstep : x state with
  | ok a later => exact hstep
  | error e later => exact Or.inr hstep

/-- What the correspondence says of the outcomes. -/
theorem cutShort_of_refusing {x : Run s α} {y : Run t α} (h : (refusing view).rel x y)
    (state : s) : CutShort (x.outcome state) (y.outcome (view state)) := by
  have hboth := h state
  rw [Run.outcome, Run.outcome]
  cases hstep : x state with
  | ok a later =>
    rw [hstep] at hboth
    exact Or.inr (by rw [hboth])
  | error e later =>
    rw [hstep] at hboth
    rcases hboth with hnull | hsame
    · exact Or.inl ⟨e, rfl, hnull⟩
    · exact Or.inr (by rw [hsame])

end Run

/-! ## Operators and expressions -/

namespace Operator

/-- Strict handling refuses the operands or takes them as they are. -/
theorem refuseNulls_cutShort (op : Operator) (nulls : NullMode) (operands : List Value)
    (rest : Except Error Value) :
    CutShort (op.refuseNulls nulls operands >>= fun _ => rest)
      (op.refuseNulls .propagate operands >>= fun _ => rest) := by
  by_cases hrefused : nulls = .strict ∧ operands.any Value.isNull = true
  · refine Or.inl ⟨.nullValue op.symbol, ?_, op, rfl⟩
    rw [refuseNulls, if_pos hrefused]
    rfl
  · refine Or.inr ?_
    rw [refuseNulls, refuseNulls, if_neg hrefused, if_neg (by simp)]

theorem applyUnary_cutShort (op : Operator) (nulls : NullMode) (a : Value) :
    CutShort (op.applyUnary a nulls) (op.applyUnary a .propagate) := by
  cases op with
  | neg | pos => exact refuseNulls_cutShort _ nulls [a] _
  | _ => exact Or.inr rfl

theorem applyBinary_cutShort (op : Operator) (nulls : NullMode) (a b : Value) :
    CutShort (op.applyBinary a b nulls) (op.applyBinary a b .propagate) := by
  cases hlogical : op.isLogical with
  | true =>
    refine Or.inr ?_
    rw [applyBinary, applyBinary, if_pos hlogical, if_pos hlogical]
  | false =>
    simp only [applyBinary, hlogical]
    exact refuseNulls_cutShort op nulls [a, b] (op.combine a b)

/-- An operator gives under any handling what it gives where nulls propagate, or refuses a null. -/
theorem apply_cutShort (op : Operator) (nulls : NullMode) (operands : List Value) :
    CutShort (op.apply nulls operands) (op.apply .propagate operands) :=
  match operands with
  | [a] => op.applyUnary_cutShort nulls a
  | [a, b] => op.applyBinary_cutShort nulls a b
  | [] | _ :: _ :: _ :: _ => Or.inr rfl

end Operator

theorem Run.refusing_relay {view : s → t} {x y : Except Error α} (h : CutShort x y) :
    (Correspondence.refusing view).rel (relay x) (relay y) := by
  rcases h with ⟨e, rfl, hnull⟩ | rfl
  · exact fun state => Or.inl hnull
  · exact (Correspondence.refusing view).relay x

namespace Cursor

variable (B : Backend σ γ)

/-! ## A cursor at work -/

/-- A run under the cursor's own handling of nulls against one in which nulls propagate. -/
abbrev refusing : Correspondence (Run (Cursor σ γ)) (Run (Cursor σ γ)) :=
  Correspondence.refusing (·.under .propagate)

theorem refusing_onSession {x y : Run (Session σ γ) α} (h : (Correspondence.refusing id).rel x y) :
    refusing.rel (onSession x : Run (Cursor σ γ) α) (onSession y) := by
  intro c
  have hsession := h c.session
  have hsame : (c.under .propagate).session = c.session := rfl
  unfold onSession
  rw [hsame]
  cases hstep : x c.session with
  | ok a session =>
    rw [hstep] at hsession
    dsimp only [id] at hsession ⊢
    rw [hsession]
    rfl
  | error e session =>
    rw [hstep] at hsession
    dsimp only [id] at hsession ⊢
    refine hsession.imp_right fun heq => ?_
    rw [heq]
    rfl

/-- The sources know nothing of how nulls are handled. -/
theorem refusing_sources (x : Run (Session σ γ) α) :
    refusing.rel (onSession x : Run (Cursor σ γ) α) (onSession x) :=
  refusing_onSession (Run.refusing_refl x)

theorem refusing_demand (operation : String) (allowed : List CursorState) :
    refusing.rel (demand operation allowed : Run (Cursor σ γ) Unit) (demand operation allowed) := by
  refine Run.refusing_get fun c => ?_
  dsimp only [under]
  split
  · exact refusing.returning ()
  · exact refusing.failing _

theorem refusing_planFor (operation : String) :
    refusing.rel (planFor operation : Run (Cursor σ γ) Plan) (planFor operation) := by
  refine Run.refusing_get fun c => ?_
  dsimp only [under]
  split
  · exact refusing.returning _
  · exact refusing.failing _

theorem refusing_renew : refusing.rel (renew : Run (Cursor σ γ) Unit) renew :=
  Run.refusing_modify fun _ => rfl

/-- The operators are all that depends on how nulls are handled. -/
theorem operators_environment (c : Cursor σ γ) :
    Correspondence.Operators (Correspondence.refusing id) (c.environment B)
      ((c.under .propagate).environment B) where
  column _ _ := Run.refusing_refl _
  apply op operands := Run.refusing_relay (op.apply_cutShort c.settings.nulls operands)
  params := rfl
  maxDepth := rfl

theorem refusing_evaluate (e : Bound) : refusing.rel (evaluate B e) (evaluate B e) := by
  rw [evaluate_eq]
  exact Run.refusing_get fun c =>
    refusing_onSession (Correspondence.eval_of_operators (c.operators_environment B) 0 e)

/-! ## Moving -/

theorem refusing_satisfied : refusing.rel (satisfied B) (satisfied B) := by
  refine refusing.sequencing (refusing_planFor _) fun plan => ?_
  split
  · exact refusing.returning true
  · rename_i predicate _
    refine refusing.sequencing (refusing_evaluate B predicate) fun v => ?_
    split
    · exact refusing.returning _
    · exact refusing.returning _
    · exact refusing.failing _

/-- A scan stops at the same row, unless the predicate refuses a null before. -/
theorem refusing_forward : ∀ rows : Nat, refusing.rel (forward B rows) (forward B rows)
  | 0 => refusing.returning _
  | rows + 1 => by
    refine refusing.sequencing (refusing_sources _) fun moved => ?_
    split
    · refine refusing.sequencing refusing_renew fun _ => ?_
      refine refusing.sequencing (refusing_satisfied B) fun holds => ?_
      split
      · exact refusing.returning _
      · exact refusing_forward rows
    · exact refusing.returning _

theorem refusing_rowBound : refusing.rel (rowBound B) (rowBound B) :=
  refusing.sequencing (refusing_sources _) fun _ => refusing.returning _

theorem refusing_start : refusing.rel (start B) (start B) := by
  refine refusing.sequencing (refusing_sources _) fun moved => ?_
  split
  · refine refusing.sequencing refusing_renew fun _ => ?_
    refine refusing.sequencing (refusing_satisfied B) fun holds => ?_
    split
    · exact refusing.returning _
    · exact refusing.sequencing (refusing_rowBound B) fun rows => refusing_forward B rows
  · exact refusing.returning _

theorem refusing_land {move : Run (Cursor σ γ) Landing} (h : refusing.rel move move) :
    refusing.rel (land move) (land move) := by
  intro c
  have hmove := h c
  unfold land
  cases hstep : move c with
  | ok landing later =>
    rw [hstep] at hmove
    dsimp only at hmove ⊢
    rw [hmove]
    rfl
  | error e later =>
    rw [hstep] at hmove
    dsimp only at hmove ⊢
    refine hmove.imp_right fun heq => ?_
    rw [heq]
    rfl

theorem refusing_execute (params : Params) :
    refusing.rel (execute params : Run (Cursor σ γ) Unit) (execute params) :=
  refusing.sequencing (refusing_demand _ _) fun _ =>
    refusing.sequencing (Run.refusing_modify fun _ => rfl) fun _ => refusing_renew

theorem refusing_first : refusing.rel (first B) (first B) :=
  refusing.sequencing (refusing_demand _ _) fun _ => refusing_land (refusing_start B)

theorem refusing_next : refusing.rel (next B) (next B) := by
  refine Run.refusing_get fun c => ?_
  dsimp only [under]
  split
  · exact refusing.returning _
  · exact refusing.sequencing (refusing_demand _ _) fun _ =>
      refusing_land (refusing.sequencing (refusing_rowBound B) fun rows => refusing_forward B rows)

/-! ## Reading -/

theorem refusing_computed (n : Nat) (e : Bound) :
    refusing.rel (computed B n e) (computed B n e) := by
  refine Run.refusing_get fun c => ?_
  dsimp only [under]
  split
  · exact refusing.returning _
  · refine refusing.sequencing (refusing_evaluate B e) fun v => ?_
    exact refusing.sequencing (Run.refusing_modify fun _ => rfl) fun _ =>
      refusing.returning v

theorem refusing_fieldValue (n : Nat) (field : Field) :
    refusing.rel (fieldValue B n field) (fieldValue B n field) := by
  unfold fieldValue
  split
  · exact refusing.returning _
  · exact Run.refusing_get fun c => refusing.returning _
  · exact refusing_sources _
  · exact refusing_computed B n _

theorem refusing_column (n : Nat) : refusing.rel (column B n) (column B n) := by
  refine refusing.sequencing (refusing_demand _ _) fun _ => ?_
  refine refusing.sequencing (refusing_planFor _) fun plan => ?_
  split
  · exact refusing_fieldValue B n _
  · exact refusing.failing _

theorem refusing_columns : ∀ ns : List Nat, refusing.rel (columns B ns) (columns B ns)
  | [] => refusing.returning []
  | n :: rest =>
    refusing.sequencing (refusing_column B n) fun _ =>
      refusing.sequencing (refusing_columns rest) fun _ => refusing.returning _

theorem refusing_row : refusing.rel (row B) (row B) :=
  Run.refusing_get fun c => refusing_columns B (List.range c.columnCount)

theorem refusing_drain : ∀ rows : Nat, refusing.rel (drain B rows) (drain B rows)
  | 0 => refusing.returning none
  | rows + 1 => by
    refine refusing.sequencing (refusing_row B) fun current => ?_
    refine refusing.sequencing (refusing_next B) fun landing => ?_
    cases landing with
    | row =>
      exact refusing.sequencing (refusing_drain rows) fun _ => refusing.returning _
    | ended => exact refusing.returning _
    | givenUp => exact refusing.returning _

theorem refusing_fetchAll (params : Params) :
    refusing.rel (fetchAll B params) (fetchAll B params) := by
  refine refusing.sequencing (refusing_execute params) fun _ => ?_
  refine refusing.sequencing (refusing_first B) fun landing => ?_
  cases landing with
  | row => exact refusing.sequencing (refusing_rowBound B) fun rows => refusing_drain B rows
  | ended => exact refusing.returning _
  | givenUp => exact refusing.returning _

/-- Strict handling only adds refusals of nulls. Over any backend a statement is prepared alike under
strict handling and where nulls propagate; reading all its rows under strict handling refuses a null
or has the outcome, rows or failure, that it has where nulls propagate; and the same holds of an
expression on the row on which a cursor stands. -/
theorem strict_only_refuses (registry : Registry) (settings : Settings) (text : String)
    (world : γ) :
    prepare B registry (settings.under .strict) text world =
        (prepare B registry (settings.under .propagate) text world).map (·.under .strict) ∧
      (∀ (c : Cursor σ γ) (params : Params),
        CutShort ((fetchAll B params).outcome (c.under .strict))
          ((fetchAll B params).outcome (c.under .propagate))) ∧
      ∀ (c : Cursor σ γ) (e : Bound),
        CutShort ((evaluate B e).outcome (c.under .strict))
          ((evaluate B e).outcome (c.under .propagate)) := by
  refine ⟨?_, fun c params => ?_, fun c e => ?_⟩
  · rw [prepare_under, prepare_under B registry settings .propagate]
    cases prepare B registry settings text world <;> rfl
  · exact Run.cutShort_of_refusing (refusing_fetchAll B params) (c.under .strict)
  · exact Run.cutShort_of_refusing (refusing_evaluate B e) (c.under .strict)

end Cursor

end SelectEngine
