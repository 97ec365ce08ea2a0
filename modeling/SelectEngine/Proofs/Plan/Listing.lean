import SelectEngine.Proofs.Plan.Denotes
import SelectEngine.Proofs.Plan.Qualified
import SelectEngine.Proofs.Typing.Described

/-!
# The columns of a SELECT list

The attributes of a SELECT list give their columns one after the other. A star gives all columns of
the sources in FROM order, or those of one source; a name gives the column that it means; any other
expression gives one column, under the name that is given to it or else under the next generated one
(`Attribute.Lists`). The generated names count from one the expressions that are given no name and
are no names themselves (`Attribute.anonymous`), whatever stands between them
(`Attribute.exists_groups_of_outputsAll`).
-/

set_option autoImplicit false

namespace SelectEngine

open Memory

variable {τ : Type}

/-! ## Stars -/

/-- The columns of the source of this number, in the order of its table. -/
def Memory.Table.refs (t : Table) (source : Nat) : List ColumnRef :=
  t.columns.zipIdx.map fun (column, position) => ⟨source, position, column⟩

/-- The columns of all sources, one source after the other. -/
def Memory.allRefs (tables : List Table) : List ColumnRef :=
  tables.zipIdx.flatMap fun (t, source) => t.refs source

namespace Scope

variable {sources : List SourceName} {tables : List Table} {table : Table} {source : Nat}

/-- The columns behind the first ones. The induction is on these, which come one by one to those in
front of them. -/
theorem columnsAt_ofTables (htable : tables[source]? = some table) (back : List Column) :
    ∀ front : List Column, table.columns = front ++ back →
      (ofTables sources tables).columnsAt source (List.range' front.length back.length) =
        .ok ((back.zipIdx front.length).map fun (column, position) =>
          (⟨source, position, column⟩ : ColumnRef)) := by
  induction back with
  | nil => exact fun _ _ => rfl
  | cons column back ih =>
    intro front hcolumns
    have hget : table.columns[front.length]? = some column := by simp [hcolumns]
    have hdescribe : (ofTables sources tables).describe source front.length = .ok column := by
      simp only [ofTables, tableAt, htable, Outcome.ok_bind, hget]
    have hrest := ih (front ++ [column]) (by simp [hcolumns])
    rw [List.length_append, List.length_singleton] at hrest
    rw [List.length_cons, List.range'_succ, columnsAt, hdescribe, Outcome.ok_bind, hrest]
    rfl

theorem columnsOf_ofTables (htable : tables[source]? = some table) :
    (ofTables sources tables).columnsOf source = .ok (table.refs source) := by
  have hcount : (ofTables sources tables).columnCount source = .ok table.columns.length := by
    simp only [ofTables, tableAt, htable, Outcome.ok_bind]
  rw [columnsOf, hcount, Outcome.ok_bind, List.range_eq_range']
  exact columnsAt_ofTables htable table.columns [] rfl

theorem columnsOfAll_ofTables (back : List Table) :
    ∀ front : List Table, tables = front ++ back →
      (ofTables sources tables).columnsOfAll (List.range' front.length back.length) =
        .ok ((back.zipIdx front.length).flatMap fun (t, source) => t.refs source) := by
  induction back with
  | nil => exact fun _ _ => rfl
  | cons table back ih =>
    intro front htables
    have hget : tables[front.length]? = some table := by simp [htables]
    have hrest := ih (front ++ [table]) (by simp [htables])
    rw [List.length_append, List.length_singleton] at hrest
    rw [List.length_cons, List.range'_succ, columnsOfAll, columnsOf_ofTables hget, Outcome.ok_bind,
      hrest]
    rfl

theorem columnsOfAll_range (hlength : sources.length = tables.length) :
    (ofTables sources tables).columnsOfAll (List.range sources.length) = .ok (allRefs tables) := by
  rw [hlength, List.range_eq_range']
  exact columnsOfAll_ofTables tables [] rfl

end Scope

/-- The qualifier means the source of this number: it is its alias, or the name of a table that fits
no source before it. -/
def SourceName.Means (sources : List SourceName) (n : Nat) : List String → Prop
  | [aliasName] => ∃ s, sources[n]? = some s ∧ Text.sameName s.aliasName aliasName = true
  | qualifier => SourceName.First sources qualifier n

theorem SourceName.means_of_find {sources : List SourceName} {qualifier : List String} {n : Nat}
    (h : find sources qualifier = .ok n) : Means sources n qualifier := by
  rcases qualifier with _ | ⟨aliasName, _ | ⟨part, parts⟩⟩
  · cases h
  · rw [find_alias] at h
    cases hfound : position? sources aliasName with
    | none =>
      rw [hfound] at h
      cases h
    | some position =>
      rw [hfound] at h
      cases h
      obtain ⟨hlt, hsame, -⟩ := List.findIdx?_eq_some_iff_getElem.mp hfound
      exact ⟨sources[n], List.getElem?_eq_getElem hlt, hsame⟩
  · exact (find_eq_ok_iff (by simp)).mp h

/-! ## Expressions -/

/-- The expression is an operation or a call. -/
def Expr.isComputed : Expr τ → Bool
  | .call _ _ | .unary _ _ | .binary _ _ _ => true
  | .text _ | .number _ | .null _ | .param _ | .name _ => false

/-- The column that an expression makes under any name, if it is no name itself. -/
inductive Expr.Makes (β : Binder τ) : Expr τ → (String → Output) → Prop
  | text (leaf : τ) : Makes β (.text leaf) (Output.static (.text (β.word leaf)))
  | number {leaf : τ} {v : Value} (hvalue : Value.ofNumeral (β.word leaf) = .ok v) :
      Makes β (.number leaf) (Output.static v)
  | null (leaf : τ) : Makes β (.null leaf) (Output.static .null)
  | param (leaf : τ) : Makes β (.param leaf) (Output.param (β.ordinal leaf))
  | computed {e : Expr τ} {b : Bound} {type : DataType} (hcomputed : e.isComputed = true)
      (hbind : e.bind β 0 = .ok b) (htype : b.type = .ok type) :
      Makes β e fun name => ⟨Column.ofType name type, b⟩

namespace Expr

variable {β : Binder τ} {e : Expr τ} {output : String → Output}

/-- The column is described under its name. -/
theorem Makes.name (h : e.Makes β output) (name : String) : (output name).column.name = name := by
  cases h <;> rfl

/-- The column has the value of the expression. -/
theorem Makes.bind (h : e.Makes β output) (name : String) :
    e.bind β 0 = .ok (output name).expression := by
  cases h with
  | text | null | param => rfl
  | number hvalue =>
    rw [Expr.bind, hvalue]
    rfl
  | computed _ hbind _ => exact hbind

variable {settings : Settings} {given : Option String} {generated : Nat}

theorem makes_of_computed {found : List Output × Nat} (hcomputed : e.isComputed = true)
    (h : (e.typed β >>= fun found => .ok (Output.named settings given generated fun name =>
      ⟨Column.ofType name found.2, found.1⟩)) = .ok found) :
    ∃ output, e.Makes β output ∧ found = Output.named settings given generated output := by
  obtain ⟨⟨b, t⟩, htyped, h⟩ := Outcome.bind_eq_ok h
  obtain ⟨b', hb, htyped⟩ := Outcome.bind_eq_ok htyped
  obtain ⟨t', ht, htyped⟩ := Outcome.bind_eq_ok htyped
  cases htyped
  exact ⟨_, .computed hcomputed hb ht, (Except.ok.inj h).symm⟩

/-- An expression that is no name gives the one column that it makes. -/
theorem makes_of_outputs {found : List Output × Nat} (hname : ∀ parts, e ≠ .name parts)
    (h : e.outputs β settings given generated = .ok found) :
    ∃ output, e.Makes β output ∧ found = Output.named settings given generated output := by
  cases e with
  | text leaf =>
    cases h
    exact ⟨_, .text leaf, rfl⟩
  | number leaf =>
    obtain ⟨v, hv, h⟩ := Outcome.bind_eq_ok h
    cases h
    exact ⟨_, .number hv, rfl⟩
  | null leaf =>
    cases h
    exact ⟨_, .null leaf, rfl⟩
  | param leaf =>
    cases h
    exact ⟨_, .param leaf, rfl⟩
  | name parts => exact absurd rfl (hname parts)
  | call | unary | binary => exact makes_of_computed rfl h

end Expr

/-! ## Attributes -/

namespace Attribute

/-- The attribute is an expression that is given no name and is no name itself. -/
def anonymous : Attribute τ → Bool
  | .star _ | .starOf _ _ | .value _ (some _) | .value (.name _) none => false
  | .value _ none => true

/-- The columns that an attribute gives. If it is anonymous it has the `n`th generated name. -/
inductive Lists (β : Binder τ) (settings : Settings) (tables : List Table) (n : Nat) :
    Attribute τ → List Output → Prop
  | star (leaf : τ) :
      Lists β settings tables n (.star leaf) ((allRefs tables).map (Output.data none))
  | starOf {parts : List τ} {leaf : τ} {source : Nat} {table : Table}
      (hsource : SourceName.Means β.scope.sources source (parts.map β.word))
      (htable : tables[source]? = some table) :
      Lists β settings tables n (.starOf parts leaf) ((table.refs source).map (Output.data none))
  | column {parts : List τ} {naming : Option (Naming τ)} {ref : ColumnRef}
      (hcolumn : β.column parts = .ok ref) (hdescribed : ref.DescribedBy tables) :
      Lists β settings tables n (.value (.name parts) naming)
        [Output.data (naming.map fun given => β.word given.name) ref]
  | named {e : Expr τ} {given : Naming τ} {output : String → Output} (hmakes : e.Makes β output) :
      Lists β settings tables n (.value e (some given)) [output (β.word given.name)]
  | generated {e : Expr τ} {output : String → Output} (hmakes : e.Makes β output) :
      Lists β settings tables n (.value e none) [output (settings.generatedName n)]

variable {β : Binder τ} {settings : Settings} {sources : List SourceName} {tables : List Table}
variable {generated n : Nat} {a : Attribute τ}

theorem anonymous_eq_true {e : Expr τ} (hname : ∀ parts, e ≠ .name parts) :
    (Attribute.value e none).anonymous = true := by
  cases e with
  | name parts => exact absurd rfl (hname parts)
  | text | number | null | param | call | unary | binary => rfl

/-- An expression of the SELECT list has the value of the one column that it gives. -/
theorem Lists.bind {e : Expr τ} {naming : Option (Naming τ)} {g : List Output}
    (h : (Attribute.value e naming).Lists β settings tables n g) :
    ∃ o, g = [o] ∧ e.bind β 0 = .ok o.expression := by
  cases h with
  | column hcolumn _ =>
    refine ⟨_, rfl, ?_⟩
    rw [Expr.bind, hcolumn]
    rfl
  | named hmakes => exact ⟨_, rfl, hmakes.bind _⟩
  | generated hmakes => exact ⟨_, rfl, hmakes.bind _⟩

/-- What an attribute is found to give, and how many names were generated. -/
theorem lists_of_outputs (hscope : β.scope = .ofTables sources tables)
    (hlength : sources.length = tables.length) {found : List Output × Nat}
    (h : a.outputs β settings generated = .ok found) :
    a.Lists β settings tables (generated + 1) found.1 ∧
      found.2 = generated + a.anonymous.toNat := by
  cases a with
  | star leaf =>
    rw [outputs, hscope] at h
    obtain ⟨refs, hrefs, h⟩ := Outcome.bind_eq_ok h
    cases h
    rw [← Except.ok.inj ((Scope.columnsOfAll_range hlength).symm.trans hrefs)]
    exact ⟨.star leaf, rfl⟩
  | starOf parts leaf =>
    rw [outputs] at h
    obtain ⟨source, hfind, h⟩ := Outcome.bind_eq_ok h
    obtain ⟨refs, hrefs, h⟩ := Outcome.bind_eq_ok h
    cases h
    rw [hscope] at hrefs
    -- The columns are counted by the table of the source, so that there is one.
    obtain ⟨_, hcount, -⟩ := Outcome.bind_eq_ok hrefs
    obtain ⟨table, hfound, -⟩ := Outcome.bind_eq_ok hcount
    have htable := getElem?_of_tableAt hfound
    rw [← Except.ok.inj ((Scope.columnsOf_ofTables htable).symm.trans hrefs)]
    exact ⟨.starOf (SourceName.means_of_find hfind) htable, rfl⟩
  | value e naming =>
    by_cases hname : ∃ parts, e = .name parts
    · obtain ⟨parts, rfl⟩ := hname
      obtain ⟨ref, href, h⟩ := Outcome.bind_eq_ok h
      cases h
      refine ⟨.column href (Binder.describedBy_of_column hscope href), ?_⟩
      cases naming <;> rfl
    · -- An expression that is no name takes the next generated name if it is given none.
      have hother : ∀ parts, e ≠ .name parts := fun parts heq => hname ⟨parts, heq⟩
      obtain ⟨output, hmakes, rfl⟩ := Expr.makes_of_outputs hother h
      cases naming with
      | none =>
        rw [anonymous_eq_true hother]
        exact ⟨.generated hmakes, rfl⟩
      | some given => exact ⟨.named hmakes, rfl⟩

/-- The groups are the columns of the attributes, one group for each, behind so many generated
names. The generated name of an attribute counts the anonymous ones up to it. -/
structure Grouped (β : Binder τ) (settings : Settings) (tables : List Table) (generated : Nat)
    (as : List (Attribute τ)) (groups : List (List Output)) : Prop where
  length : groups.length = as.length
  lists : ∀ (k : Nat) (a : Attribute τ), as[k]? = some a → ∃ g, groups[k]? = some g ∧
    a.Lists β settings tables (generated + (as.take k).countP anonymous + 1) g

theorem Grouped.cons {as : List (Attribute τ)} {g : List Output} {groups : List (List Output)}
    (h : a.Lists β settings tables (generated + 1) g)
    (hrest : Grouped β settings tables (generated + a.anonymous.toNat) as groups) :
    Grouped β settings tables generated (a :: as) (g :: groups) := by
  refine ⟨congrArg Nat.succ hrest.length, fun k other hother => ?_⟩
  cases k with
  | zero =>
    cases hother
    exact ⟨g, rfl, h⟩
  | succ k =>
    obtain ⟨g', hg', hlists⟩ := hrest.lists k other hother
    have hturn : generated + ((a :: as).take (k + 1)).countP anonymous =
        generated + a.anonymous.toNat + (as.take k).countP anonymous := by
      rw [List.take_succ_cons, List.countP_cons]
      cases a.anonymous with
      | false => simp
      | true =>
        simp only [Bool.toNat_true, if_true]
        omega
    rw [hturn]
    exact ⟨g', hg', hlists⟩

/-- The columns of a SELECT list are those of its attributes one after the other. The induction is
on the attributes, behind those that have generated names. -/
theorem exists_groups_of_outputsAll (hscope : β.scope = .ofTables sources tables)
    (hlength : sources.length = tables.length) :
    ∀ {as : List (Attribute τ)} {generated : Nat} {found : List Output × Nat},
      outputsAll β settings generated as = .ok found →
      ∃ groups, found.1 = groups.flatten ∧ Grouped β settings tables generated as groups
  | [], _, _, h => by
    cases h
    exact ⟨[], rfl, rfl, nofun⟩
  | a :: as, generated, _, h => by
    rw [outputsAll] at h
    obtain ⟨first, hfirst, h⟩ := Outcome.bind_eq_ok h
    obtain ⟨more, hmore, h⟩ := Outcome.bind_eq_ok h
    cases h
    obtain ⟨hlists, hnext⟩ := lists_of_outputs hscope hlength hfirst
    obtain ⟨groups, hgroups, hgrouped⟩ := exists_groups_of_outputsAll hscope hlength hmore
    rw [hnext] at hgrouped
    exact ⟨first.1 :: groups, by rw [List.flatten_cons, hgroups], hgrouped.cons hlists⟩

end Attribute

/-! ## Statements -/

theorem Expr.bind_of_condition {β : Binder τ} {e : Expr τ} {b : Bound}
    (h : e.condition β = .ok b) : e.bind β 0 = .ok b := by
  obtain ⟨typed, htyped, h⟩ := Outcome.bind_eq_ok h
  obtain ⟨bound, hbound, htyped⟩ := Outcome.bind_eq_ok htyped
  obtain ⟨t, -, htyped⟩ := Outcome.bind_eq_ok htyped
  cases htyped
  dsimp only at h
  split at h
  · cases h
    exact hbound
  · cases h

/-- What a statement means is put together of what its SELECT list and its condition mean. -/
theorem Statement.meaningOver_eq_ok {β : Binder τ} {s : Statement τ} {sources : List SourceName}
    {settings : Settings} {m : Meaning} (h : s.meaningOver β sources settings = .ok m) :
    m.sources = sources ∧
      (∃ generated, Attribute.outputsAll β settings 0 s.attributes = .ok (m.outputs, generated)) ∧
      ∀ r, s.restriction = some r →
        ∃ b, m.condition = some b ∧ r.condition.condition β = .ok b := by
  obtain ⟨found, hfound, h⟩ := Outcome.bind_eq_ok h
  cases hr : s.restriction with
  | none =>
    rw [hr] at h
    cases h
    exact ⟨rfl, ⟨found.2, hfound⟩, nofun⟩
  | some r =>
    rw [hr] at h
    obtain ⟨b, hb, h⟩ := Outcome.bind_eq_ok h
    cases h
    refine ⟨rfl, ⟨found.2, hfound⟩, fun other hother => ?_⟩
    cases hother
    exact ⟨b, rfl, hb⟩

end SelectEngine
