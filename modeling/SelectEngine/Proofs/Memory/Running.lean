import SelectEngine.Proofs.Correspondence.Evaluation
import SelectEngine.Proofs.Cursor.Request
import SelectEngine.Proofs.Memory.Move

/-!
# Cursors over tables in memory

A cursor over tables in memory is `Running` when its sources stand at places on the tables that its
plan names and its cache holds nothing that is wrong for the current row. Reading keeps it so
(`Running.column`), and what is read is what the field means on the current combined row, whatever
was read before (`Running.row`).
-/

set_option autoImplicit false

namespace SelectEngine.Memory

variable {catalog : Catalog} {plan : Plan} {settings : Settings}

/-- The surroundings of expressions on the current combined row. -/
def surroundings (settings : Settings) (params : Params) (places : List (Place catalog)) :
    Environment (Except Error) :=
  .onRows settings params (combination (entries places))

/-- An entry of the cache of a cursor is not of a later row, and if it is of the current one it is
the value of its field. -/
def CacheFits (plan : Plan) (places : List (Place catalog)) (c : Cursor Scan Unit) : Prop :=
  ∀ (n g : Nat) (v : Value), c.cache[n]? = some (some (g, v)) → g ≤ c.generation ∧
    (g = c.generation → c.state = .positioned → ∀ field : Field, plan.fields[n]? = some field →
      field.eval (surroundings c.settings c.params places) = .ok v)

/-- A cursor with a plan whose sources stand at the given places. -/
structure Running (plan : Plan) (settings : Settings) (places : List (Place catalog))
    (c : Cursor Scan Unit) : Prop where
  plan_eq : c.plan = some plan
  settings_eq : c.settings = settings
  session_eq : c.session = session places
  names : places.map Place.name = plan.sources
  inside : c.state = .positioned → AllInside (entries places)
  cache : CacheFits plan places c

/-- A value that was found on the current row may be kept. -/
theorem CacheFits.keep {places : List (Place catalog)} {c : Cursor Scan Unit}
    (h : CacheFits plan places c) {n : Nat} {field : Field} {v : Value}
    (hfield : plan.fields[n]? = some field)
    (hv : field.eval (surroundings c.settings c.params places) = .ok v) :
    CacheFits plan places
      { c with cache := c.cache.setIfInBounds n (some (c.generation, v)) } := by
  intro m g w hm
  by_cases hmn : n = m
  · subst hmn
    have hentry : (g, w) = (c.generation, v) := by
      rw [Array.getElem?_setIfInBounds_self] at hm
      split at hm
      · exact (Option.some.inj (Option.some.inj hm)).symm
      · cases hm
    obtain ⟨rfl, rfl⟩ := Prod.mk.inj hentry
    refine ⟨Nat.le_refl _, fun _ _ other hother => ?_⟩
    rw [Option.some.inj (hother.symm.trans hfield)]
    exact hv
  · rw [Array.getElem?_setIfInBounds_ne hmn] at hm
    exact h m g w hm

/-- An expression has the value that it has on the current combined row. -/
theorem evaluate_apply {places : List (Place catalog)} {c : Cursor Scan Unit}
    (hs : c.session = session places) (hin : AllInside (entries places)) (e : Bound) :
    Cursor.evaluate (backend catalog) e c =
      (relay (e.eval (surroundings c.settings c.params places) 0) : Run _ _) c := by
  have henv : Correspondence.Environments (Correspondence.atRest (session places))
      (c.environment (backend catalog)) (surroundings c.settings c.params places) :=
    ⟨atRest_column hin, rfl, rfl, rfl⟩
  have heval : e.eval (c.environment (backend catalog)) 0 c.session =
      (relay (e.eval (surroundings c.settings c.params places) 0) : Run _ _) c.session := by
    rw [hs]
    exact Correspondence.eval henv 0 e
  simp only [Cursor.evaluate_eq, Run.bind_apply, Run.get_apply, Cursor.onSession]
  rw [heval]
  cases e.eval (surroundings c.settings c.params places) 0 <;> rfl

/-- The WHERE clause holds where it holds on the current combined row. -/
theorem satisfied_apply {places : List (Place catalog)} {c : Cursor Scan Unit}
    (hp : c.plan = some plan) (hs : c.session = session places)
    (hin : AllInside (entries places)) :
    Cursor.satisfied (backend catalog) c =
      (relay (plan.holds (surroundings c.settings c.params places)) : Run _ _) c := by
  rw [Cursor.satisfied, Run.bind_of_ok (Cursor.planFor_of_some hp), Plan.holds]
  cases plan.predicate with
  | none => rfl
  | some entry =>
    obtain ⟨node, predicate⟩ := entry
    dsimp only
    rw [Run.bind_apply, evaluate_apply hs hin]
    cases predicate.eval (surroundings c.settings c.params places) 0 with
    | error e => rfl
    | ok v => cases v <;> rfl

namespace Running

variable {places : List (Place catalog)} {c : Cursor Scan Unit}

/-- A field that is a column reads the current row of its source. -/
theorem data (h : Running plan settings places c) (hpos : c.state = .positioned)
    (ref : ColumnRef) :
    Cursor.onSession (Session.at_ ref.source (Source.column (backend catalog) ref.position)) c =
      (relay (columnOf (combination (entries places)) ref.source ref.position) : Run _ _) c := by
  have hread : Session.at_ ref.source (Source.column (backend catalog) ref.position) c.session =
      (relay (columnOf (combination (entries places)) ref.source ref.position) : Run _ _)
        c.session := by
    rw [h.session_eq]
    exact atRest_column (h.inside hpos) ref.source ref.position
  rw [Cursor.onSession, hread]
  cases columnOf (combination (entries places)) ref.source ref.position <;> rfl

/-- A value that the cache holds for the current row is the value of the field. -/
theorem cached (h : Running plan settings places c) (hpos : c.state = .positioned) {n : Nat}
    {field : Field} {node : NodeId} {e : Bound} {entry : Nat × Value}
    (hfield : plan.fields[n]? = some field) (hkind : field.kind = .computed node e)
    (hentry : c.cache.getD n none = some entry) (hcurrent : entry.1 = c.generation) :
    e.eval (surroundings settings c.params places) 0 = .ok entry.2 := by
  have hget : c.cache[n]? = some (some entry) := by
    rw [Array.getD_eq_getD_getElem?] at hentry
    cases hc : c.cache[n]? with
    | none =>
      rw [hc] at hentry
      cases hentry
    | some x =>
      rw [hc] at hentry
      rw [← hentry]
      rfl
  have hvalue := (h.cache n entry.1 entry.2 hget).2 hcurrent hpos _ hfield
  rwa [h.settings_eq, field.eval_of_computed hkind] at hvalue

/-- A computed field gives the value of its expression, which the cache then holds. -/
theorem computed (h : Running plan settings places c) (hpos : c.state = .positioned) {n : Nat}
    {field : Field} {node : NodeId} {e : Bound} (hfield : plan.fields[n]? = some field)
    (hkind : field.kind = .computed node e) :
    ∃ cache, Cursor.computed (backend catalog) n e c =
        (relay (e.eval (surroundings settings c.params places) 0) : Run _ _)
          { c with cache := cache } ∧
      Running plan settings places { c with cache := cache } := by
  -- The cache answers if it has an entry of this row, else the expression is evaluated and kept.
  have heval := evaluate_apply h.session_eq (h.inside hpos) e
  rw [h.settings_eq] at heval
  simp only [Cursor.computed, Run.bind_apply, Run.get_apply]
  generalize hcached : Option.filter _ (c.cache.getD n none) = found
  cases found with
  | some entry =>
    obtain ⟨hentry, hcurrent⟩ := Option.filter_eq_some_iff.mp hcached
    refine ⟨c.cache, ?_, h⟩
    rw [h.cached hpos hfield hkind hentry (beq_iff_eq.mp hcurrent)]
    rfl
  | none =>
    dsimp only
    rw [Run.bind_apply, heval]
    cases hv : e.eval (surroundings settings c.params places) 0 with
    | error err => exact ⟨c.cache, rfl, h⟩
    | ok v =>
      refine ⟨c.cache.setIfInBounds n (some (c.generation, v)), rfl, ?_⟩
      refine { h with cache := h.cache.keep hfield ?_ }
      rw [h.settings_eq, field.eval_of_computed hkind]
      exact hv

/-- The value of a field is that on the current combined row, found now or kept since it was. -/
theorem fieldValue (h : Running plan settings places c) (hpos : c.state = .positioned) {n : Nat}
    {field : Field} (hfield : plan.fields[n]? = some field) :
    ∃ cache, Cursor.fieldValue (backend catalog) n field c =
        (relay (field.eval (surroundings settings c.params places)) : Run _ _)
          { c with cache := cache } ∧
      Running plan settings places { c with cache := cache } := by
  cases hkind : field.kind with
  | static v =>
    refine ⟨c.cache, ?_, h⟩
    rw [Cursor.fieldValue, Field.eval, hkind]
    rfl
  | param ordinal =>
    refine ⟨c.cache, ?_, h⟩
    rw [Cursor.fieldValue, Field.eval, hkind]
    rfl
  | data ref =>
    rw [Cursor.fieldValue, Field.eval, hkind]
    exact ⟨c.cache, h.data hpos ref, h⟩
  | computed node e =>
    rw [Cursor.fieldValue, field.eval_of_computed hkind, hkind]
    exact h.computed hpos hfield hkind

/-- The value of a column of the result. -/
theorem column (h : Running plan settings places c) (hpos : c.state = .positioned) {n : Nat}
    {field : Field} (hfield : plan.fields[n]? = some field) :
    ∃ cache, Cursor.column (backend catalog) n c =
        (relay (field.eval (surroundings settings c.params places)) : Run _ _)
          { c with cache := cache } ∧
      Running plan settings places { c with cache := cache } := by
  obtain ⟨cache, hrun, hrunning⟩ := h.fieldValue hpos hfield
  refine ⟨cache, ?_, hrunning⟩
  rw [Cursor.column, Run.bind_of_ok (Cursor.demand_of_mem (List.mem_singleton.mpr hpos)),
    Run.bind_of_ok (Cursor.planFor_of_some h.plan_eq), hfield]
  exact hrun

/-- The values of the fields behind the first ones. -/
theorem columns (front : List Field) : ∀ (back : List Field) {c : Cursor Scan Unit},
    Running plan settings places c → c.state = .positioned → plan.fields = front ++ back →
    ∃ cache, Cursor.columns (backend catalog) (List.range' front.length back.length) c =
        (relay (Field.evalAll (surroundings settings c.params places) back) : Run _ _)
          { c with cache := cache } ∧
      Running plan settings places { c with cache := cache }
  | [], c, h, _, _ => ⟨c.cache, rfl, h⟩
  | field :: back, c, h, hpos, hfields => by
    have hfield : plan.fields[front.length]? = some field := by simp [hfields]
    obtain ⟨cache, hrun, hrunning⟩ := h.column hpos hfield
    rw [List.length_cons, List.range'_succ, Cursor.columns, Field.evalAll, Run.bind_apply, hrun]
    cases hv : field.eval (surroundings settings c.params places) with
    | error e => exact ⟨cache, rfl, hrunning⟩
    | ok v =>
      have hrest : plan.fields = (front ++ [field]) ++ back := by simp [hfields]
      obtain ⟨last, hrun', hrunning'⟩ := columns (front ++ [field]) back hrunning hpos hrest
      rw [List.length_append, List.length_singleton] at hrun'
      refine ⟨last, ?_, hrunning'⟩
      simp only [Run.relay_ok]
      rw [Run.bind_apply, hrun']
      simp only [bind, Except.bind]
      cases Field.evalAll (surroundings settings c.params places) back <;> rfl

/-- The values of all fields on the current combined row. -/
theorem row (h : Running plan settings places c) (hpos : c.state = .positioned) :
    ∃ cache, Cursor.row (backend catalog) c =
        (relay (Field.evalAll (surroundings settings c.params places) plan.fields) : Run _ _)
          { c with cache := cache } ∧
      Running plan settings places { c with cache := cache } := by
  obtain ⟨cache, hrun, hrunning⟩ := columns [] plan.fields h hpos rfl
  refine ⟨cache, ?_, hrunning⟩
  have hcount : c.columnCount = plan.fields.length := by simp [Cursor.columnCount, h.plan_eq]
  rw [Cursor.row, Run.bind_of_ok (Run.get_apply c), hcount, List.range_eq_range']
  exact hrun

end Running

end SelectEngine.Memory
