import SelectEngine.Proofs.Alike.Names
import SelectEngine.Proofs.Plan.Meaning

/-!
# Statements in another letter case bind alike

A statement whose leaves stand for other words, names in another letter case and literals as they
were, means the same over the tables of a catalog, but for the letter case of the names of its
sources and of its columns; or both meanings fail with the same variant of failure
(`Statement.meaning_alike`).
-/

set_option autoImplicit false

namespace SelectEngine

open Outcome Text Memory

variable {τ : Type}

/-! ## Columns in scope -/

/-- Two scopes with the same columns, under aliases that are the same but for their letter case. -/
structure Scope.Alike (scope scope' : Scope (Except Error)) : Prop where
  sources : scope.sources.map SourceName.folded = scope'.sources.map SourceName.folded
  columnCount : scope.columnCount = scope'.columnCount
  columnId : ∀ source {name name' : String}, foldCase name = foldCase name' →
    scope.columnId? source name = scope'.columnId? source name'
  describe : scope.describe = scope'.describe

theorem Scope.alike_ofTables {names names' : List SourceName}
    (h : names.map SourceName.folded = names'.map SourceName.folded) (tables : List Table) :
    Scope.Alike (.ofTables names tables) (.ofTables names' tables) where
  sources := h
  columnCount := rfl
  columnId source name name' hname := by
    simp only [ofTables, Table.columnId?_congr _ hname]
  describe := rfl

namespace Scope.Alike

variable {scope scope' : Scope (Except Error)}

theorem length_eq (h : scope.Alike scope') : scope.sources.length = scope'.sources.length := by
  simpa using congrArg List.length h.sources

theorem firstWith (h : scope.Alike scope') {name name' : String}
    (hname : foldCase name = foldCase name') (sources : List Nat) :
    scope.firstWith name sources = scope'.firstWith name' sources := by
  induction sources with
  | nil => rfl
  | cons i rest ih => rw [Scope.firstWith, Scope.firstWith, h.columnId i hname, ih]

theorem sourceWith (h : scope.Alike scope') {name name' : String}
    (hname : foldCase name = foldCase name') :
    Outcome.Alike Eq (scope.sourceWith name) (scope'.sourceWith name') := by
  rw [Scope.sourceWith, Scope.sourceWith, h.length_eq, h.firstWith hname]
  refine (alike_refl _).bind_eq fun found => ?_
  rcases found with _ | ⟨i, rest⟩
  · exact .error rfl
  · dsimp only
    rw [h.firstWith hname]
    refine (alike_refl _).bind_eq fun second => ?_
    cases second with
    | none => exact .ok rfl
    | some other => exact .error rfl

theorem columnIn (h : scope.Alike scope') (source : Nat) {name name' : String}
    (hname : foldCase name = foldCase name') (shown shown' : String) :
    Outcome.Alike Eq (scope.columnIn source name shown) (scope'.columnIn source name' shown') := by
  rw [Scope.columnIn, Scope.columnIn, h.columnId source hname, h.describe]
  refine (alike_refl _).bind_eq fun found => ?_
  cases found with
  | none => exact .error rfl
  | some position => exact alike_refl _

/-- The parts of a name mean the same column in any letter case. -/
theorem column (h : scope.Alike scope') {parts parts' : List String}
    (hparts : parts.map foldCase = parts'.map foldCase) :
    Outcome.Alike Eq (scope.column parts) (scope'.column parts') := by
  have hlast : parts.getLast?.map foldCase = parts'.getLast?.map foldCase := by
    rw [← List.getLast?_map, ← List.getLast?_map, hparts]
  have hqualifier : parts.dropLast.map foldCase = parts'.dropLast.map foldCase := by
    rw [List.map_dropLast, List.map_dropLast, hparts]
  have hlength : parts.dropLast.length = parts'.dropLast.length := by
    simpa using congrArg List.length hqualifier
  unfold Scope.column
  dsimp only
  obtain ⟨hnone, hnone'⟩ | ⟨name, name', hname, hname', hsame⟩ := map_eq_cases hlast
  · rw [hnone, hnone']
    exact .error rfl
  rw [hname, hname']
  have located (source : Nat) := h.columnIn source hsame (".".intercalate parts)
    (".".intercalate parts')
  match hqualified : parts.dropLast, hqualified' : parts'.dropLast with
  | [], [] => exact (h.sourceWith hsame).bind_eq located
  | [], _ :: _ | _ :: _, [] =>
    rw [hqualified, hqualified'] at hlength
    cases hlength
  | part :: more, part' :: more' =>
    rw [hqualified, hqualified'] at hqualifier hlength
    dsimp only
    rw [hlength]
    split
    · exact .error rfl
    · rw [relay_eq, relay_eq]
      exact (SourceName.find_congr h.sources hqualifier).bind_eq located

theorem columnsAt (h : scope.Alike scope') (source : Nat) (positions : List Nat) :
    scope.columnsAt source positions = scope'.columnsAt source positions := by
  induction positions with
  | nil => rfl
  | cons position rest ih => rw [Scope.columnsAt, Scope.columnsAt, h.describe, ih]

theorem columnsOf (h : scope.Alike scope') (source : Nat) :
    scope.columnsOf source = scope'.columnsOf source := by
  rw [Scope.columnsOf, Scope.columnsOf, h.columnCount]
  congr 1
  funext count
  exact h.columnsAt source _

theorem columnsOfAll (h : scope.Alike scope') (sources : List Nat) :
    scope.columnsOfAll sources = scope'.columnsOfAll sources := by
  induction sources with
  | nil => rfl
  | cons source rest ih => rw [Scope.columnsOfAll, Scope.columnsOfAll, h.columnsOf, ih]

end Scope.Alike

/-! ## Words -/

section

variable {word word' : τ → String}

/-- The parts of a name, in the words of both. -/
theorem fold_parts_congr {parts : List τ}
    (h : ∀ leaf, (.id, leaf) ∈ partLeaves parts → foldCase (word leaf) = foldCase (word' leaf)) :
    (parts.map word).map foldCase = (parts.map word').map foldCase := by
  rw [List.map_map, List.map_map]
  exact List.map_congr_left fun part hpart => h part (List.mem_map_of_mem hpart)

/-- The name given to something, in the words of both. -/
theorem fold_naming_congr {naming : Option (Naming τ)}
    (h : ∀ leaf, (.id, leaf) ∈ namingLeaves naming →
      foldCase (word leaf) = foldCase (word' leaf)) :
    (naming.map fun n => word n.name).map foldCase =
      (naming.map fun n => word' n.name).map foldCase := by
  cases naming with
  | none => rfl
  | some n => exact congrArg some (h n.name (List.mem_append_right _ List.mem_cons_self))

end

/-! ## Expressions -/

/-- Two binders that differ in the letter case of the names among some leaves, and in the aliases of
their sources accordingly; they number the parameters among these leaves alike. -/
structure Binder.Alike (β β' : Binder τ) (held : List (Leaf τ)) : Prop where
  scope : β.scope.Alike β'.scope
  registry : β.registry = β'.registry
  maxDepth : β.maxDepth = β'.maxDepth
  ordinal : ∀ leaf, (.param, leaf) ∈ held → β.ordinal leaf = β'.ordinal leaf
  name : ∀ leaf, (.id, leaf) ∈ held → foldCase (β.word leaf) = foldCase (β'.word leaf)
  text : ∀ leaf, (.text, leaf) ∈ held → β.word leaf = β'.word leaf
  number : ∀ leaf, (.number, leaf) ∈ held → β.word leaf = β'.word leaf

section

variable {β β' : Binder τ} {held : List (Leaf τ)}

namespace Binder.Alike

theorem parts (h : β.Alike β' held) {parts : List τ}
    (hparts : ∀ leaf ∈ partLeaves parts, leaf ∈ held) :
    (parts.map β.word).map foldCase = (parts.map β'.word).map foldCase :=
  fold_parts_congr fun leaf hleaf => h.name leaf (hparts _ hleaf)

theorem column (h : β.Alike β' held) {parts : List τ}
    (hparts : ∀ leaf ∈ partLeaves parts, leaf ∈ held) :
    Outcome.Alike Eq (β.column parts) (β'.column parts) :=
  h.scope.column (h.parts hparts)

theorem function (h : β.Alike β' held) {name : τ} (hname : (.id, name) ∈ held) (args : Nat) :
    Outcome.Alike Eq (β.function name args) (β'.function name args) := by
  rw [Binder.function, Binder.function, h.registry, Registry.forCall?_congr _ _ (h.name name hname)]
  cases β'.registry.forCall? (β'.word name) args with
  | some f => exact .ok rfl
  | none => exact .error rfl

theorem guardDepth (h : β.Alike β' held) (depth : Nat) :
    β.guardDepth depth = β'.guardDepth depth := by
  rw [Binder.guardDepth, Binder.guardDepth, h.maxDepth]

end Binder.Alike

namespace Expr

mutual

/-- An expression is bound to the same bound expression in any letter case. -/
theorem bind_alike (h : β.Alike β' held) : ∀ (e : Expr τ) (depth : Nat),
    (∀ leaf ∈ e.leaves, leaf ∈ held) → Outcome.Alike Eq (e.bind β depth) (e.bind β' depth)
  | .text leaf, _, hmem => by
    rw [bind, bind, h.text leaf (hmem _ List.mem_cons_self)]
    exact alike_refl _
  | .number leaf, _, hmem => by
    rw [bind, bind, h.number leaf (hmem _ List.mem_cons_self)]
    exact alike_refl _
  | .null _, _, _ => alike_refl _
  | .param leaf, _, hmem => by
    rw [bind, bind, h.ordinal leaf (hmem _ List.mem_cons_self)]
    exact alike_refl _
  | .name parts, _, hmem => (h.column hmem).bind_eq fun ref => alike_refl _
  | .call function args, depth, hmem => by
    rw [Expr.leaves, List.forall_mem_cons] at hmem
    rw [bind, bind, h.guardDepth]
    refine (h.function hmem.1 _).bind_eq fun f => (alike_refl _).bind_eq fun _ => ?_
    exact (bindAll_alike h args (depth + 1) hmem.2).bind_eq fun es => alike_refl _
  | .unary op operand, depth, hmem => by
    rw [bind, bind, h.guardDepth]
    refine (alike_refl _).bind_eq fun _ => ?_
    exact (bind_alike h operand (depth + 1) hmem).bind_eq fun e => alike_refl _
  | .binary op left right, depth, hmem => by
    rw [Expr.leaves, List.forall_mem_append] at hmem
    rw [bind, bind, h.guardDepth]
    refine (alike_refl _).bind_eq fun _ => ?_
    refine (bind_alike h left (depth + 1) hmem.1).bind_eq fun l => ?_
    exact (bind_alike h right (depth + 1) hmem.2).bind_eq fun r => alike_refl _

theorem bindAll_alike (h : β.Alike β' held) : ∀ (es : List (Expr τ)) (depth : Nat),
    (∀ leaf ∈ leavesAll es, leaf ∈ held) →
      Outcome.Alike Eq (bindAll β depth es) (bindAll β' depth es)
  | [], _, _ => alike_refl _
  | e :: es, depth, hmem => by
    rw [leavesAll, List.forall_mem_append] at hmem
    rw [bindAll, bindAll]
    refine (bind_alike h e depth hmem.1).bind_eq fun b => ?_
    exact (bindAll_alike h es depth hmem.2).bind_eq fun bs => alike_refl _

end

theorem typed_alike (h : β.Alike β' held) {e : Expr τ} (hmem : ∀ leaf ∈ e.leaves, leaf ∈ held) :
    Outcome.Alike Eq (e.typed β) (e.typed β') :=
  (bind_alike h e 0 hmem).bind_eq fun _ => alike_refl _

theorem condition_alike (h : β.Alike β' held) {e : Expr τ}
    (hmem : ∀ leaf ∈ e.leaves, leaf ∈ held) :
    Outcome.Alike Eq (e.condition β) (e.condition β') :=
  (typed_alike h hmem).bind_eq fun _ => alike_refl _

end Expr

/-! ## Columns of the result -/

end

/-- The descriptor with its name in lower case. -/
def Column.folded (c : Column) : Column := c.rename (foldCase c.name)

namespace Output

/-- The column with its name in lower case. -/
def folded (o : Output) : Output := ⟨o.column.folded, o.expression⟩

/-- The same columns but for the letter case of their names, and as many generated names. -/
def SameAll (found found' : List Output × Nat) : Prop :=
  found.1.map folded = found'.1.map folded ∧ found.2 = found'.2

theorem folded_data {given given' : Option String} (h : given.map foldCase = given'.map foldCase)
    (ref : ColumnRef) : (data given ref).folded = (data given' ref).folded := by
  obtain ⟨rfl, rfl⟩ | ⟨name, name', rfl, rfl, hname⟩ := map_eq_cases h
  · rfl
  · simp [folded, data, Column.folded, Column.rename, hname]

theorem sameAll_named (settings : Settings) {given given' : Option String}
    (h : given.map foldCase = given'.map foldCase) (generated : Nat) {output : String → Output}
    (houtput : ∀ name name', foldCase name = foldCase name' →
      (output name).folded = (output name').folded) :
    SameAll (named settings given generated output) (named settings given' generated output) := by
  obtain ⟨rfl, rfl⟩ | ⟨name, name', rfl, rfl, hname⟩ := map_eq_cases h
  · exact ⟨rfl, rfl⟩
  · exact ⟨congrArg (fun o => [o]) (houtput name name' hname), rfl⟩

/-- A descriptor of a type and no more. -/
theorem folded_ofType (t : DataType) (e : Bound) (name name' : String)
    (h : foldCase name = foldCase name') :
    Output.folded ⟨Column.ofType name t, e⟩ = Output.folded ⟨Column.ofType name' t, e⟩ := by
  simp [folded, Column.folded, Column.rename, Column.ofType, h]

theorem folded_static (v : Value) (name name' : String) (h : foldCase name = foldCase name') :
    (static v name).folded = (static v name').folded := by
  simp [folded, static, Field.output, Field.static, Column.folded, Column.rename, Column.ofType, h,
    Field.expression]

end Output

open Output

section

variable {β β' : Binder τ} {held : List (Leaf τ)}

theorem Expr.outputs_alike (h : β.Alike β' held) (settings : Settings)
    {given given' : Option String} (hgiven : given.map foldCase = given'.map foldCase)
    (generated : Nat) (e : Expr τ) (hmem : ∀ leaf ∈ e.leaves, leaf ∈ held) :
    Outcome.Alike SameAll (e.outputs β settings given generated)
      (e.outputs β' settings given' generated) := by
  have hcomputed {e : Expr τ} (hmem : ∀ leaf ∈ e.leaves, leaf ∈ held) :
      Outcome.Alike SameAll
        (e.typed β >>= fun found => .ok (named settings given generated fun name =>
          ⟨Column.ofType name found.2, found.1⟩))
        (e.typed β' >>= fun found => .ok (named settings given' generated fun name =>
          ⟨Column.ofType name found.2, found.1⟩)) :=
    (Expr.typed_alike h hmem).bind_eq fun found =>
      .ok (sameAll_named settings hgiven generated (folded_ofType found.2 found.1))
  cases e with
  | text leaf =>
    rw [Expr.outputs, Expr.outputs, h.text leaf (hmem _ List.mem_cons_self)]
    exact .ok (sameAll_named settings hgiven generated (folded_static _))
  | number leaf =>
    rw [Expr.outputs, Expr.outputs, h.number leaf (hmem _ List.mem_cons_self)]
    refine (alike_refl _).bind_eq fun v => ?_
    exact .ok (sameAll_named settings hgiven generated (folded_static v))
  | null leaf => exact .ok (sameAll_named settings hgiven generated (folded_static .null))
  | param leaf =>
    rw [Expr.outputs, Expr.outputs, h.ordinal leaf (hmem _ List.mem_cons_self)]
    exact .ok (sameAll_named settings hgiven generated
      (folded_ofType .null (.param (β'.ordinal leaf))))
  | name parts =>
    refine (h.column hmem).bind_eq fun ref => .ok ⟨?_, rfl⟩
    exact congrArg (fun o => [o]) (folded_data hgiven ref)
  | call function args => exact hcomputed (e := .call function args) hmem
  | unary op operand => exact hcomputed (e := .unary op operand) hmem
  | binary op left right => exact hcomputed (e := .binary op left right) hmem

theorem Attribute.outputs_alike (h : β.Alike β' held) (settings : Settings) (generated : Nat)
    (a : Attribute τ) (hmem : ∀ leaf ∈ a.leaves, leaf ∈ held) :
    Outcome.Alike SameAll (a.outputs β settings generated) (a.outputs β' settings generated) := by
  cases a with
  | star leaf =>
    rw [Attribute.outputs, Attribute.outputs, h.scope.length_eq, h.scope.columnsOfAll]
    exact (alike_refl _).bind_eq fun refs => .ok ⟨rfl, rfl⟩
  | starOf parts leaf =>
    rw [Attribute.leaves, List.forall_mem_append] at hmem
    rw [Attribute.outputs, Attribute.outputs]
    refine (SourceName.find_congr h.scope.sources (h.parts hmem.1)).bind_eq fun source => ?_
    rw [h.scope.columnsOf]
    exact (alike_refl _).bind_eq fun refs => .ok ⟨rfl, rfl⟩
  | value e naming =>
    rw [Attribute.leaves, List.forall_mem_append] at hmem
    have hnaming := fold_naming_congr fun leaf hleaf => h.name leaf (hmem.2 _ hleaf)
    exact Expr.outputs_alike h settings hnaming generated e hmem.1

theorem Attribute.outputsAll_alike (h : β.Alike β' held) (settings : Settings) (generated : Nat)
    (as : List (Attribute τ)) (hmem : ∀ leaf ∈ as.flatMap Attribute.leaves, leaf ∈ held) :
    Outcome.Alike SameAll (Attribute.outputsAll β settings generated as)
      (Attribute.outputsAll β' settings generated as) := by
  induction as generalizing generated with
  | nil => exact .ok ⟨rfl, rfl⟩
  | cons a as ih =>
    rw [List.flatMap_cons, List.forall_mem_append] at hmem
    rw [Attribute.outputsAll, Attribute.outputsAll]
    refine (Attribute.outputs_alike h settings generated a hmem.1).bind fun found found' hfound => ?_
    rw [hfound.2]
    refine (ih found'.2 hmem.2).bind fun more more' hmore => .ok ⟨?_, hmore.2⟩
    rw [List.map_append, List.map_append, hfound.1, hmore.1]

end

/-! ## Statements -/

/-- The meaning with the names of sources and columns in lower case. -/
def Meaning.folded (m : Meaning) : Meaning :=
  ⟨m.sources.map SourceName.folded, m.outputs.map Output.folded, m.condition⟩

namespace Memory

/-- The same tables are named, or none by the first name that names none. -/
theorem tablesNamed_alike (catalog : Catalog) : ∀ {names names' : List SourceName},
    names.map SourceName.folded = names'.map SourceName.folded →
      Outcome.Alike Eq (tablesNamed catalog names) (tablesNamed catalog names')
  | [], [], _ => alike_refl _
  | name :: names, name' :: names', h => by
    obtain ⟨hfirst, hrest⟩ := List.cons.inj h
    rw [tablesNamed, tablesNamed, catalog.lookup_congr (SourceName.mk.inj hfirst).2]
    cases catalog.lookup name'.table with
    | none => exact .error rfl
    | some table => exact (tablesNamed_alike catalog hrest).bind_eq fun tables => alike_refl _

end Memory

namespace Statement

variable {word word' : τ → String} {s : Statement τ}

/-- The leaves of a statement stand for the same words, names in any letter case. -/
structure SameWords (s : Statement τ) (word word' : τ → String) : Prop where
  name : ∀ leaf, (.id, leaf) ∈ s.leaves → foldCase (word leaf) = foldCase (word' leaf)
  text : ∀ leaf, (.text, leaf) ∈ s.leaves → word leaf = word' leaf
  number : ∀ leaf, (.number, leaf) ∈ s.leaves → word leaf = word' leaf

/-- A FROM list names the same sources, or is refused for the same reason. -/
theorem sources_alike (sources : List (FromItem τ)) {names names' : List SourceName}
    (hnames : names.map SourceName.folded = names'.map SourceName.folded)
    (hword : ∀ leaf, (.id, leaf) ∈ sources.flatMap FromItem.leaves →
      foldCase (word leaf) = foldCase (word' leaf)) :
    Outcome.Alike (fun found found' =>
        found.map SourceName.folded = found'.map SourceName.folded)
      (sources.foldlM (FromItem.register word) names)
      (sources.foldlM (FromItem.register word') names') := by
  induction sources generalizing names names' with
  | nil => exact .ok hnames
  | cons source sources ih =>
    rw [List.flatMap_cons, FromItem.leaves] at hword
    have hparts := fold_parts_congr fun leaf hleaf =>
      hword leaf (List.mem_append_left _ (List.mem_append_left _ hleaf))
    have hgiven := fold_naming_congr fun leaf hleaf =>
      hword leaf (List.mem_append_left _ (List.mem_append_right _ hleaf))
    rw [List.foldlM_cons, List.foldlM_cons]
    exact (SourceName.register_congr hnames hparts hgiven).bind fun found found' hfound =>
      ih hfound fun leaf hleaf => hword leaf (List.mem_append_right _ hleaf)

/-- In another letter case a statement means the same. -/
theorem meaning_alike [DecidableEq τ] (h : s.SameWords word word') (catalog : Catalog)
    (registry : Registry) (settings : Settings) :
    Outcome.Alike (fun m m' => m.folded = m'.folded) (s.meaning word catalog registry settings)
      (s.meaning word' catalog registry settings) := by
  rw [meaning, meaning]
  have hsources : ∀ leaf, (.id, leaf) ∈ s.sources.flatMap FromItem.leaves →
      foldCase (word leaf) = foldCase (word' leaf) :=
    fun leaf hleaf => h.name leaf (mem_leaves_of_sources hleaf)
  refine (sources_alike s.sources rfl hsources).bind fun names names' hnames => ?_
  refine (tablesNamed_alike catalog hnames).bind_eq fun tables => ?_
  have hbinder : (s.binder word names tables registry settings).Alike
      (s.binder word' names' tables registry settings) s.leaves :=
    { scope := Scope.alike_ofTables hnames tables
      registry := rfl
      maxDepth := rfl
      ordinal := fun _ _ => rfl
      name := h.name
      text := h.text
      number := h.number }
  refine (Attribute.outputsAll_alike hbinder settings 0 s.attributes
    fun leaf hleaf => mem_leaves_of_attributes hleaf).bind fun found found' hfound => ?_
  cases hr : s.restriction with
  | none =>
    refine .ok ?_
    rw [Meaning.folded, Meaning.folded, hnames, hfound.1]
  | some r =>
    have hmem : ∀ leaf ∈ r.condition.leaves, leaf ∈ s.leaves :=
      fun leaf hleaf => mem_leaves_of_condition hr hleaf
    refine (Expr.condition_alike hbinder hmem).bind_eq fun condition => .ok ?_
    rw [Meaning.folded, Meaning.folded, hnames, hfound.1]

end Statement

end SelectEngine
