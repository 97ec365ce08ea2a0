import SelectEngine.Proofs.Plan.Meaning
import SelectEngine.Proofs.Typing.Runtime

/-!
# Output columns have the types of their expressions

The descriptor of an output column has the type that binding finds for its expression, every column
that the expression reads is described as the table of its source describes it, and every function
that it calls is one of the registry (`Statement.described_meaning`).
-/

set_option autoImplicit false

namespace SelectEngine

open Memory

variable {τ : Type} {names : List SourceName} {tables : List Table} {registry : Registry}

/-- The table of the source has the column, under the same descriptor. -/
def ColumnRef.DescribedBy (tables : List Table) (ref : ColumnRef) : Prop :=
  ∃ table, tables[ref.source]? = some table ∧ table.columns[ref.position]? = some ref.column

/-! ## Columns of tables -/

theorem Memory.getElem?_of_tableAt {source : Nat} {table : Table}
    (h : tableAt tables source = .ok table) : tables[source]? = some table := by
  rw [tableAt] at h
  cases hfound : tables[source]? with
  | none =>
    rw [hfound] at h
    cases h
  | some found =>
    rw [hfound] at h
    exact congrArg some (Except.ok.inj h)

namespace Scope

theorem describedBy_of_describe {source position : Nat} {column : Column}
    (h : (ofTables names tables).describe source position = .ok column) :
    (⟨source, position, column⟩ : ColumnRef).DescribedBy tables := by
  obtain ⟨table, htable, h⟩ := Outcome.bind_eq_ok h
  refine ⟨table, getElem?_of_tableAt htable, ?_⟩
  split at h
  · next found =>
    cases h
    exact found
  · cases h

theorem describedBy_of_columnIn {source : Nat} {name shown : String} {ref : ColumnRef}
    (h : (ofTables names tables).columnIn source name shown = .ok ref) :
    ref.DescribedBy tables := by
  obtain ⟨position, -, h⟩ := Outcome.bind_eq_ok h
  cases position with
  | none => cases h
  | some position =>
    obtain ⟨column, hcolumn, h⟩ := Outcome.bind_eq_ok h
    cases h
    exact describedBy_of_describe hcolumn

theorem describedBy_of_column {parts : List String} {ref : ColumnRef}
    (h : (ofTables names tables).column parts = .ok ref) : ref.DescribedBy tables := by
  -- Whichever source the qualifier means, the column is looked up in it.
  have located {x : Except Error Nat} {name : String}
      (h : (x >>= fun source =>
        (ofTables names tables).columnIn source name (".".intercalate parts)) = .ok ref) :
      ref.DescribedBy tables := by
    obtain ⟨source, -, h⟩ := Outcome.bind_eq_ok h
    exact describedBy_of_columnIn h
  unfold column at h
  dsimp only at h
  split at h
  · cases h
  · split at h
    · exact located h
    · split at h
      · exact located h
      · exact located h

theorem describedBy_of_columnsAt {source : Nat} : ∀ {positions : List Nat} {refs : List ColumnRef},
    (ofTables names tables).columnsAt source positions = .ok refs →
    ∀ ref ∈ refs, ref.DescribedBy tables
  | [], refs, h => by
    cases h
    exact nofun
  | position :: rest, refs, h => by
    rw [columnsAt] at h
    obtain ⟨column, hcolumn, h⟩ := Outcome.bind_eq_ok h
    obtain ⟨more, hmore, h⟩ := Outcome.bind_eq_ok h
    cases h
    exact List.forall_mem_cons.mpr
      ⟨describedBy_of_describe hcolumn, describedBy_of_columnsAt hmore⟩

theorem describedBy_of_columnsOf {source : Nat} {refs : List ColumnRef}
    (h : (ofTables names tables).columnsOf source = .ok refs) :
    ∀ ref ∈ refs, ref.DescribedBy tables := by
  obtain ⟨count, -, h⟩ := Outcome.bind_eq_ok h
  exact describedBy_of_columnsAt h

theorem describedBy_of_columnsOfAll : ∀ {sources : List Nat} {refs : List ColumnRef},
    (ofTables names tables).columnsOfAll sources = .ok refs → ∀ ref ∈ refs, ref.DescribedBy tables
  | [], refs, h => by
    cases h
    exact nofun
  | source :: rest, refs, h => by
    rw [columnsOfAll] at h
    obtain ⟨columns, hcolumns, h⟩ := Outcome.bind_eq_ok h
    obtain ⟨more, hmore, h⟩ := Outcome.bind_eq_ok h
    cases h
    exact List.forall_mem_append.mpr
      ⟨describedBy_of_columnsOf hcolumns, describedBy_of_columnsOfAll hmore⟩

end Scope

/-! ## Expressions -/

/-- All that expressions read and call is there: the columns are those of the tables, and the
functions those of the registry. -/
structure Bound.Over (tables : List Table) (registry : Registry) (e : Bound) : Prop where
  columns : ∀ ref ∈ e.columns, ref.DescribedBy tables
  functions : ∀ f ∈ e.functions, f ∈ registry.functions

structure Bound.AllOver (tables : List Table) (registry : Registry) (es : List Bound) : Prop where
  columns : ∀ ref ∈ Bound.columnsOfAll es, ref.DescribedBy tables
  functions : ∀ f ∈ Bound.functionsOfAll es, f ∈ registry.functions

namespace Bound

variable {e : Bound} {es : List Bound}

theorem over_literal (reading : Except Error Value) : (literal reading).Over tables registry :=
  ⟨nofun, nofun⟩

theorem over_param (ordinal : Nat) : (param ordinal).Over tables registry := ⟨nofun, nofun⟩

theorem over_column {ref : ColumnRef} (h : ref.DescribedBy tables) :
    (column ref).Over tables registry :=
  ⟨fun _ hmem => List.mem_singleton.mp hmem ▸ h, nofun⟩

theorem AllOver.call {f : Function} (h : AllOver tables registry es) (hf : f ∈ registry.functions) :
    (call f es).Over tables registry :=
  ⟨h.columns, List.forall_mem_cons.mpr ⟨hf, h.functions⟩⟩

theorem AllOver.operation (h : AllOver tables registry es) (op : Operator) :
    (operation op es).Over tables registry :=
  ⟨h.columns, h.functions⟩

theorem allOver_nil : AllOver tables registry [] := ⟨nofun, nofun⟩

theorem Over.cons (h : e.Over tables registry) (hes : AllOver tables registry es) :
    AllOver tables registry (e :: es) :=
  ⟨List.forall_mem_append.mpr ⟨h.columns, hes.columns⟩,
    List.forall_mem_append.mpr ⟨h.functions, hes.functions⟩⟩

end Bound

variable {β : Binder τ}

theorem Binder.describedBy_of_column {parts : List τ} {ref : ColumnRef}
    (hscope : β.scope = .ofTables names tables) (h : β.column parts = .ok ref) :
    ref.DescribedBy tables := by
  rw [column, hscope] at h
  exact Scope.describedBy_of_column h

theorem Binder.mem_of_function {name : τ} {args : Nat} {f : Function}
    (h : β.function name args = .ok f) : f ∈ β.registry.functions := by
  unfold Binder.function at h
  split at h
  · next found =>
    cases h
    exact Registry.mem_of_find? (Registry.find?_of_forCall? found)
  · cases h

mutual

/-- What an expression is bound to reads and calls what is there. -/
theorem Expr.over_of_bind (hscope : β.scope = .ofTables names tables) : ∀ (e : Expr τ)
    (depth : Nat) (b : Bound), e.bind β depth = .ok b → b.Over tables β.registry
  | .text _, _, _, h | .null _, _, _, h => by
    cases h
    exact Bound.over_literal _
  | .number _, _, _, h => by
    cases h
    exact Bound.over_literal _
  | .param _, _, _, h => by
    cases h
    exact Bound.over_param _
  | .name parts, _, _, h => by
    obtain ⟨ref, href, h⟩ := Outcome.bind_eq_ok h
    cases h
    exact Bound.over_column (Binder.describedBy_of_column hscope href)
  | .call function args, depth, _, h => by
    rw [Expr.bind] at h
    obtain ⟨f, hf, h⟩ := Outcome.bind_eq_ok h
    obtain ⟨-, -, h⟩ := Outcome.bind_eq_ok h
    obtain ⟨es, hes, h⟩ := Outcome.bind_eq_ok h
    cases h
    exact (Expr.allOver_of_bindAll hscope args (depth + 1) es hes).call (Binder.mem_of_function hf)
  | .unary op operand, depth, _, h => by
    rw [Expr.bind] at h
    obtain ⟨-, -, h⟩ := Outcome.bind_eq_ok h
    obtain ⟨e, he, h⟩ := Outcome.bind_eq_ok h
    cases h
    exact ((Expr.over_of_bind hscope operand (depth + 1) e he).cons Bound.allOver_nil).operation op
  | .binary op left right, depth, _, h => by
    rw [Expr.bind] at h
    obtain ⟨-, -, h⟩ := Outcome.bind_eq_ok h
    obtain ⟨l, hl, h⟩ := Outcome.bind_eq_ok h
    obtain ⟨r, hr, h⟩ := Outcome.bind_eq_ok h
    cases h
    have hright := (Expr.over_of_bind hscope right (depth + 1) r hr).cons Bound.allOver_nil
    exact ((Expr.over_of_bind hscope left (depth + 1) l hl).cons hright).operation op

theorem Expr.allOver_of_bindAll (hscope : β.scope = .ofTables names tables) :
    ∀ (es : List (Expr τ)) (depth : Nat) (bs : List Bound), Expr.bindAll β depth es = .ok bs →
      Bound.AllOver tables β.registry bs
  | [], _, _, h => by
    cases h
    exact Bound.allOver_nil
  | e :: es, depth, _, h => by
    rw [Expr.bindAll] at h
    obtain ⟨b, hb, h⟩ := Outcome.bind_eq_ok h
    obtain ⟨bs, hbs, h⟩ := Outcome.bind_eq_ok h
    cases h
    have hrest := Expr.allOver_of_bindAll hscope es depth bs hbs
    exact (Expr.over_of_bind hscope e depth b hb).cons hrest

end

/-! ## Output columns -/

/-- The descriptor has the type of the expression, all of which is there. -/
structure Output.Described (tables : List Table) (registry : Registry) (o : Output) : Prop where
  type : o.expression.type = .ok o.column.type
  present : o.expression.Over tables registry

namespace Output

/-- A column that is always the same value has the type of the value. -/
theorem described_static (v : Value) (name : String) : (static v name).Described tables registry :=
  ⟨rfl, Bound.over_literal _⟩

theorem described_param (ordinal : Nat) (name : String) :
    (param ordinal name).Described tables registry :=
  ⟨rfl, Bound.over_param _⟩

theorem described_data {ref : ColumnRef} (given : Option String) (h : ref.DescribedBy tables) :
    (data given ref).Described tables registry := by
  refine ⟨?_, Bound.over_column h⟩
  cases given <;> rfl

theorem described_named {output : String → Output} (settings : Settings) (given : Option String)
    (generated : Nat) (h : ∀ name, (output name).Described tables registry) :
    ∀ o ∈ (named settings given generated output).1, o.Described tables registry := by
  cases given <;> exact fun o ho => List.mem_singleton.mp ho ▸ h _

end Output

variable {settings : Settings} {given : Option String} {generated : Nat}

theorem Expr.described_of_outputs {e : Expr τ} {found : List Output × Nat}
    (hscope : β.scope = .ofTables names tables)
    (h : e.outputs β settings given generated = .ok found) :
    ∀ o ∈ found.1, o.Described tables β.registry := by
  unfold outputs at h
  split at h
  · cases h
    exact Output.described_named settings given generated (Output.described_static _)
  · obtain ⟨v, -, h⟩ := Outcome.bind_eq_ok h
    cases h
    exact Output.described_named settings given generated (Output.described_static _)
  · cases h
    exact Output.described_named settings given generated (Output.described_static _)
  · cases h
    exact Output.described_named settings given generated (Output.described_param _)
  · obtain ⟨ref, href, h⟩ := Outcome.bind_eq_ok h
    cases h
    intro o ho
    rw [List.mem_singleton.mp ho]
    exact Output.described_data given (Binder.describedBy_of_column hscope href)
  · -- An operator or a call is announced with the type that it is bound with.
    obtain ⟨⟨b, t⟩, htyped, h⟩ := Outcome.bind_eq_ok h
    cases h
    obtain ⟨b', hb, htyped⟩ := Outcome.bind_eq_ok htyped
    obtain ⟨t', ht, htyped⟩ := Outcome.bind_eq_ok htyped
    cases htyped
    exact Output.described_named settings given generated fun name =>
      ⟨ht, Expr.over_of_bind hscope _ 0 b hb⟩

namespace Attribute

theorem described_of_outputs {a : Attribute τ} {found : List Output × Nat}
    (hscope : β.scope = .ofTables names tables) (h : a.outputs β settings generated = .ok found) :
    ∀ o ∈ found.1, o.Described tables β.registry := by
  have columns {refs : List ColumnRef} (hrefs : ∀ ref ∈ refs, ref.DescribedBy tables) :
      ∀ o ∈ refs.map (Output.data none), o.Described tables β.registry := by
    intro o ho
    obtain ⟨ref, href, rfl⟩ := List.mem_map.mp ho
    exact Output.described_data none (hrefs ref href)
  cases a with
  | star _ =>
    rw [outputs, hscope] at h
    obtain ⟨refs, hrefs, h⟩ := Outcome.bind_eq_ok h
    cases h
    exact columns (Scope.describedBy_of_columnsOfAll hrefs)
  | starOf parts _ =>
    rw [outputs, hscope] at h
    obtain ⟨source, -, h⟩ := Outcome.bind_eq_ok h
    obtain ⟨refs, hrefs, h⟩ := Outcome.bind_eq_ok h
    cases h
    exact columns (Scope.describedBy_of_columnsOf hrefs)
  | value e naming => exact Expr.described_of_outputs hscope h

theorem described_of_outputsAll (hscope : β.scope = .ofTables names tables) :
    ∀ {as : List (Attribute τ)} {generated : Nat} {found : List Output × Nat},
      outputsAll β settings generated as = .ok found →
      ∀ o ∈ found.1, o.Described tables β.registry
  | [], _, _, h => by
    cases h
    exact nofun
  | a :: as, _, _, h => by
    rw [outputsAll] at h
    obtain ⟨first, hfirst, h⟩ := Outcome.bind_eq_ok h
    obtain ⟨more, hmore, h⟩ := Outcome.bind_eq_ok h
    cases h
    exact List.forall_mem_append.mpr
      ⟨described_of_outputs hscope hfirst, described_of_outputsAll hscope hmore⟩

end Attribute

/-- The output columns of a statement are described as they are bound. -/
theorem Statement.described_meaning [DecidableEq τ] {s : Statement τ} {word : τ → String}
    {catalog : Catalog} {m : Meaning} (h : s.meaning word catalog registry settings = .ok m) :
    ∃ tables, tablesNamed catalog m.sources = .ok tables ∧
      ∀ o ∈ m.outputs, o.Described tables registry := by
  obtain ⟨names, -, h⟩ := Outcome.bind_eq_ok h
  obtain ⟨tables, htables, h⟩ := Outcome.bind_eq_ok h
  obtain ⟨found, hfound, h⟩ := Outcome.bind_eq_ok h
  have hscope : (s.binder word names tables registry settings).scope = .ofTables names tables := rfl
  have hdescribed : ∀ o ∈ found.1, o.Described tables registry :=
    Attribute.described_of_outputsAll hscope hfound
  split at h
  · cases h
    exact ⟨tables, htables, hdescribed⟩
  · obtain ⟨condition, -, h⟩ := Outcome.bind_eq_ok h
    cases h
    exact ⟨tables, htables, hdescribed⟩

end SelectEngine
