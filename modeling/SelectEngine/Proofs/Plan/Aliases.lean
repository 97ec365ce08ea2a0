import SelectEngine.Cursor
import SelectEngine.Proofs.Ordinary.Operation
import SelectEngine.Proofs.Plan.Agreement
import SelectEngine.Proofs.Plan.Graft
import SelectEngine.Proofs.Tree.Read

/-!
# Aliases of a FROM list

Every source of a FROM list has an alias, the name that is given to it or else that of its table. A
FROM list whose aliases are distinct up to letter case is registered as it stands, and any other is
refused at the first source that repeats the alias of one before it
(`SourceName.foldlM_register_cases`). This is found out before any source is opened, so that it does
not depend on the backend and leaves what its providers share as it was
(`Cursor.prepare_of_not_distinct`). Nothing that is bound later is refused for its alias
(`Statement.late_meaningOver`).
-/

set_option autoImplicit false

namespace SelectEngine

variable {α β τ : Type}

/-! ## Registering sources -/

/-- The source that an item of a FROM list names: its table, under the alias that is given or else
under the name of the table. -/
structure FromItem.Names (word : τ → String) (item : FromItem τ) (source : SourceName) : Prop where
  table : TableName.ofParts (item.parts.map word) = some source.table
  alias_eq : source.aliasName = (item.naming.map fun n => word n.name).getD source.table.table

theorem FromItem.exists_names (word : τ → String) {item : FromItem τ} (h : item.WellFormed) :
    ∃ source, item.Names word source := by
  have hne : item.parts.map word ≠ [] := by simpa using h.1
  have hlength : (item.parts.map word).length ≤ 3 := by simpa using h.2
  obtain ⟨table, htable⟩ := TableName.exists_ofParts hne hlength
  exact ⟨⟨(item.naming.map fun n => word n.name).getD table.table, table⟩, htable, rfl⟩

theorem FromItem.forall₂_names (word : τ → String) {items : List (FromItem τ)}
    (h : ∀ item ∈ items, item.WellFormed) :
    ∃ sources, List.Forall₂ (FromItem.Names word) items sources := by
  induction items with
  | nil => exact ⟨[], .nil⟩
  | cons item items ih =>
    obtain ⟨hitem, hitems⟩ := List.forall_mem_cons.mp h
    obtain ⟨source, hsource⟩ := item.exists_names word hitem
    obtain ⟨sources, hsources⟩ := ih hitems
    exact ⟨source :: sources, .cons hsource hsources⟩

namespace SourceName

/-- No two sources have the same alias, up to letter case. -/
def Distinct (sources : List SourceName) : Prop :=
  sources.Pairwise fun s t => Text.sameName s.aliasName t.aliasName = false

/-- The first source that has the alias of one before it has this alias. -/
def Repeats (sources : List SourceName) (aliasName : String) : Prop :=
  ∃ front s back, sources = front ++ s :: back ∧ Distinct front ∧
    (∃ t ∈ front, Text.sameName t.aliasName s.aliasName = true) ∧ s.aliasName = aliasName

variable {sources front : List SourceName} {items : List (FromItem τ)} {word : τ → String}
variable {aliasName : String}

theorem Repeats.not_distinct (h : Repeats sources aliasName) : ¬Distinct sources := by
  obtain ⟨front, s, back, rfl, -, ⟨t, ht, hsame⟩, -⟩ := h
  intro hdistinct
  have hne := (List.pairwise_append.mp hdistinct).2.2 t ht s List.mem_cons_self
  rw [hsame] at hne
  cases hne

/-- A source is put behind those before it unless one of these has its alias. -/
theorem register_of_names {item : FromItem τ} {source : SourceName} (h : item.Names word source) :
    FromItem.register word front item =
      if front.any fun s => Text.sameName s.aliasName source.aliasName then
        .error (.duplicateAlias source.aliasName)
      else .ok (front ++ [source]) := by
  have hsource : (⟨source.aliasName, source.table⟩ : SourceName) = source := rfl
  rw [FromItem.register, SourceName.register, h.table]
  dsimp only
  rw [← h.alias_eq, hsource]

/-- A FROM list whose aliases are distinct is registered as it stands, and any other is refused for
the first alias that is repeated. The induction is on the items, behind sources with distinct
aliases. -/
theorem foldlM_register_cases (hfront : Distinct front)
    (h : List.Forall₂ (FromItem.Names word) items sources) :
    (Distinct (front ++ sources) ∧
        items.foldlM (FromItem.register word) front = .ok (front ++ sources)) ∨
      ∃ aliasName, Repeats (front ++ sources) aliasName ∧
        items.foldlM (FromItem.register word) front = .error (.duplicateAlias aliasName) := by
  induction h generalizing front with
  | nil =>
    rw [List.append_nil]
    exact Or.inl ⟨hfront, rfl⟩
  | @cons item source items sources hitem _ ih =>
    rw [List.foldlM_cons, register_of_names hitem]
    cases htaken : front.any fun s => Text.sameName s.aliasName source.aliasName with
    | true =>
      obtain ⟨s, hs, hsame⟩ := List.any_eq_true.mp htaken
      rw [if_pos rfl]
      exact Or.inr ⟨source.aliasName, ⟨front, source, sources, rfl, hfront, ⟨s, hs, hsame⟩, rfl⟩,
        rfl⟩
    | false =>
      have hfree : ∀ s ∈ front, Text.sameName s.aliasName source.aliasName = false := by
        intro s hs
        have hnot := List.any_eq_false.mp htaken s hs
        exact Bool.not_eq_true _ ▸ hnot
      have hnext : Distinct (front ++ [source]) := by
        refine List.pairwise_append.mpr ⟨hfront, List.pairwise_singleton _ _, fun s hs t ht => ?_⟩
        rw [List.mem_singleton.mp ht]
        exact hfree s hs
      have hrest := ih hnext
      rw [List.append_assoc] at hrest
      rw [if_neg Bool.false_ne_true, Outcome.ok_bind]
      exact hrest

theorem foldlM_register_of_distinct (h : List.Forall₂ (FromItem.Names word) items sources)
    (hdistinct : Distinct sources) : items.foldlM (FromItem.register word) [] = .ok sources := by
  rcases foldlM_register_cases List.Pairwise.nil h with ⟨-, hrun⟩ | ⟨_, hrepeats, -⟩
  · exact hrun
  · exact absurd hdistinct hrepeats.not_distinct

theorem exists_repeats (h : List.Forall₂ (FromItem.Names word) items sources)
    (hdistinct : ¬Distinct sources) : ∃ aliasName, Repeats sources aliasName ∧
      items.foldlM (FromItem.register word) [] = .error (.duplicateAlias aliasName) := by
  rcases foldlM_register_cases List.Pairwise.nil h with ⟨hdistinct', -⟩ | hrepeats
  · exact absurd hdistinct' hdistinct
  · exact hrepeats

end SourceName

/-! ## FROM lists of texts -/

section

variable {tree : Tree} {s : Statement (Fin tree.tokens.size)} {sources : List SourceName}
variable {registry : Registry} {settings : Settings} {text : String}

/-- The sources of a tree are the items of the FROM list of the statement that it holds. -/
theorem Plan.sourceNames_eq (h : tree.Holds s) :
    sourceNames tree ((s.map Fin.val).branch 0) =
      s.sources.foldlM (FromItem.register tree.spelling) [] := by
  rw [sourceNames_of_holds h]
  exact Statement.foldlM_register s.sources [] fun leaf _ _ => Tree.word_val leaf.2

/-- A failure to read the FROM list comes before any source is opened: the backend is not asked for
anything. -/
theorem Cursor.prepare_of_sourceNames {σ γ : Type} (B : Backend σ γ) (world : γ) {e : Error}
    (htree : parse settings.reading text = .ok tree) (h : tree.Holds s)
    (hnames : Plan.sourceNames tree ((s.map Fin.val).branch 0) = .error e) :
    prepare B registry settings text world = .error (e, world) := by
  have hbind : Session.bind B registry settings tree ⟨[], world⟩ = .error e ⟨[], world⟩ := by
    rw [Session.bind, Plan.statement_of_holds h, Run.bind_of_ok (Run.relay_ok _ _), hnames]
    rfl
  rw [prepare, htree]
  dsimp only
  rw [ofTree, hbind]
  rfl

/-- A FROM list in which an alias is repeated is refused for it over every backend. -/
theorem Cursor.prepare_of_not_distinct (registry : Registry)
    (htree : parse settings.reading text = .ok tree) (h : tree.Holds s)
    (hsources : List.Forall₂ (FromItem.Names tree.spelling) s.sources sources)
    (hdistinct : ¬SourceName.Distinct sources) :
    ∃ aliasName, SourceName.Repeats sources aliasName ∧
      ∀ (σ γ : Type) (B : Backend σ γ) (world : γ),
        prepare B registry settings text world = .error (.duplicateAlias aliasName, world) := by
  obtain ⟨aliasName, hrepeats, hrun⟩ := SourceName.exists_repeats hsources hdistinct
  refine ⟨aliasName, hrepeats, fun σ γ B world => ?_⟩
  exact prepare_of_sourceNames B world htree h ((Plan.sourceNames_eq h).trans hrun)

end

/-! ## Failures behind the FROM list -/

/-- The failure is not that of an alias. -/
def Error.Late (e : Error) : Prop := ∀ aliasName, e ≠ .duplicateAlias aliasName

/-- The outcome is a value, or a failure that is not that of an alias. -/
abbrev Late (x : Except Error α) : Prop := FailsIn Error.Late x

theorem Error.OfValues.late {e : Error} (h : e.OfValues) : e.Late := by
  rintro aliasName rfl
  exact h

namespace Scope

variable {names : List SourceName} {tables : List Memory.Table}

theorem late_tableAt (source : Nat) : Late (Memory.tableAt tables source) := by
  rw [Memory.tableAt]
  cases tables[source]? with
  | some table => trivial
  | none =>
    intro aliasName h
    cases h

theorem late_describe (source position : Nat) :
    Late ((ofTables names tables).describe source position) := by
  refine failsIn_bind (late_tableAt source) fun table => ?_
  split
  · trivial
  · exact nofun

theorem late_columnId? (source : Nat) (name : String) :
    Late ((ofTables names tables).columnId? source name) :=
  failsIn_bind (late_tableAt source) fun _ => trivial

theorem late_firstWith (name : String) :
    ∀ is : List Nat, Late ((ofTables names tables).firstWith name is)
  | [] => trivial
  | i :: rest => by
    refine failsIn_bind (late_columnId? i name) fun found => ?_
    cases found with
    | none => exact late_firstWith name rest
    | some position => trivial

theorem late_sourceWith (name : String) : Late ((ofTables names tables).sourceWith name) := by
  refine failsIn_bind (late_firstWith name _) fun found => ?_
  cases found with
  | none => exact nofun
  | some first =>
    refine failsIn_bind (late_firstWith name first.2) fun second => ?_
    cases second with
    | none => trivial
    | some other => exact nofun

theorem late_find (qualifier : List String) : Late (SourceName.find names qualifier) := by
  unfold SourceName.find
  dsimp only
  split
  · trivial
  · exact nofun

theorem late_column (parts : List String) : Late ((ofTables names tables).column parts) := by
  have hcolumn (source : Nat) (name : String) :
      Late ((ofTables names tables).columnIn source name (".".intercalate parts)) := by
    refine failsIn_bind (late_columnId? source name) fun found => ?_
    cases found with
    | none => exact nofun
    | some position => exact failsIn_bind (late_describe source position) fun _ => trivial
  unfold column
  dsimp only
  split
  · exact nofun
  · split
    · exact failsIn_bind (late_sourceWith _) fun source => hcolumn source _
    · split
      · exact nofun
      · rw [Outcome.relay_eq]
        exact failsIn_bind (late_find _) fun source => hcolumn source _

theorem late_columnsAt (source : Nat) :
    ∀ positions : List Nat, Late ((ofTables names tables).columnsAt source positions)
  | [] => trivial
  | position :: rest =>
    failsIn_bind (late_describe source position) fun _ =>
      failsIn_bind (late_columnsAt source rest) fun _ => trivial

theorem late_columnsOf (source : Nat) : Late ((ofTables names tables).columnsOf source) :=
  failsIn_bind (failsIn_bind (late_tableAt source) fun _ => trivial) fun _ =>
    late_columnsAt source _

theorem late_columnsOfAll :
    ∀ sources : List Nat, Late ((ofTables names tables).columnsOfAll sources)
  | [] => trivial
  | source :: rest =>
    failsIn_bind (late_columnsOf source) fun _ =>
      failsIn_bind (late_columnsOfAll rest) fun _ => trivial

end Scope

theorem late_tablesNamed (catalog : Memory.Catalog) (names : List SourceName) :
    Late (Memory.tablesNamed catalog names) := by
  induction names with
  | nil => trivial
  | cons name rest ih =>
    rw [Memory.tablesNamed]
    cases catalog.lookup name.table with
    | none =>
      intro aliasName h
      cases h
    | some table => exact failsIn_bind ih fun _ => trivial

namespace Operator

/-- An operator refuses types, or a number of operands that it does not take. -/
theorem late_resultType (op : Operator) (types : List DataType) : Late (op.resultType types) := by
  by_cases h : types.length = op.arity
  · exact (onValues_resultType h).mono fun _ => Error.OfValues.late
  · -- With another number of operands it is typed without them, as if it took two, or refused.
    rcases types with _ | ⟨l, _ | ⟨r, _ | ⟨t, ts⟩⟩⟩ <;> cases op <;> first
      | trivial
      | exact absurd rfl h
      | exact (onValues_arithmeticType _ l r).mono fun _ => Error.OfValues.late
      | exact nofun

end Operator

/-! ## Statements behind the FROM list -/

/-- A value with the property, or a failure that is not that of an alias. -/
def LateWith (x : Except Error α) (Q : α → Prop) : Prop :=
  match x with
  | .ok a => Q a
  | .error e => e.Late

theorem lateWith_bind {x : Except Error α} {f : α → Except Error β} {P : α → Prop} {Q : β → Prop}
    (hx : LateWith x P) (hf : ∀ a, P a → LateWith (f a) Q) : LateWith (x >>= f) Q := by
  cases x with
  | ok a => exact hf a hx
  | error e => exact hx

theorem Late.lateWith {x : Except Error α} (h : Late x) : LateWith x fun _ => True := by
  cases x with
  | ok a => trivial
  | error e => exact h

theorem LateWith.late {x : Except Error α} {Q : α → Prop} (h : LateWith x Q) : Late x := by
  cases x with
  | ok a => trivial
  | error e => exact h

section

variable {β : Binder τ} {names : List SourceName} {tables : List Memory.Table}

theorem late_ofNumeral (numeral : String) : Late (Value.ofNumeral numeral) :=
  (Value.onValues_ofNumeral numeral).mono fun _ => Error.OfValues.late

theorem Binder.late_function (β : Binder τ) (name : τ) (args : Nat) :
    Late (β.function name args) := by
  unfold Binder.function
  cases β.registry.forCall? (β.word name) args with
  | none =>
    rintro aliasName ⟨⟩
  | some f => trivial

theorem Binder.late_guardDepth (β : Binder τ) (depth : Nat) : Late (β.guardDepth depth) := by
  unfold Binder.guardDepth
  split
  · exact nofun
  · trivial

theorem Binder.late_column (hscope : β.scope = .ofTables names tables) (parts : List τ) :
    Late (β.column parts) := by
  rw [Binder.column, hscope]
  exact Scope.late_column _

mutual

/-- An expression is bound to one whose type is found, or is refused for another reason. -/
theorem Expr.late_bind (hscope : β.scope = .ofTables names tables) :
    ∀ (depth : Nat) (e : Expr τ), LateWith (e.bind β depth) fun b => Late b.type
  | _, .text _ | _, .null _ | _, .param _ => trivial
  | _, .number leaf => by
    have hnumeral := late_ofNumeral (β.word leaf)
    rw [Expr.bind]
    show Late ((Value.ofNumeral (β.word leaf)).map Value.type)
    cases hv : Value.ofNumeral (β.word leaf) with
    | ok v => trivial
    | error e => exact hnumeral.of_error hv
  | _, .name parts => by
    rw [Expr.bind]
    exact lateWith_bind (Binder.late_column hscope parts).lateWith fun _ _ => trivial
  | depth, .call function args => by
    rw [Expr.bind]
    refine lateWith_bind (β.late_function function _).lateWith fun f _ => ?_
    refine lateWith_bind (β.late_guardDepth depth).lateWith fun _ _ => ?_
    refine lateWith_bind (Expr.late_bindAll hscope (depth + 1) args) fun bs hbs => ?_
    show Late (Bound.types bs >>= fun ts => .ok (f.returnType ts))
    exact failsIn_bind hbs fun _ => trivial
  | depth, .unary op operand => by
    rw [Expr.bind]
    refine lateWith_bind (β.late_guardDepth depth).lateWith fun _ _ => ?_
    refine lateWith_bind (Expr.late_bind hscope (depth + 1) operand) fun b hb => ?_
    show Late (Bound.types [b] >>= op.resultType)
    exact failsIn_bind (failsIn_bind hb fun _ => trivial) op.late_resultType
  | depth, .binary op left right => by
    rw [Expr.bind]
    refine lateWith_bind (β.late_guardDepth depth).lateWith fun _ _ => ?_
    refine lateWith_bind (Expr.late_bind hscope (depth + 1) left) fun l hl => ?_
    refine lateWith_bind (Expr.late_bind hscope (depth + 1) right) fun r hr => ?_
    show Late (Bound.types [l, r] >>= op.resultType)
    exact failsIn_bind (failsIn_bind hl fun _ => failsIn_bind
      (failsIn_bind hr fun _ => trivial) fun _ => trivial) op.late_resultType

theorem Expr.late_bindAll (hscope : β.scope = .ofTables names tables) :
    ∀ (depth : Nat) (es : List (Expr τ)),
      LateWith (Expr.bindAll β depth es) fun bs => Late (Bound.types bs)
  | _, [] => trivial
  | depth, e :: es => by
    rw [Expr.bindAll]
    refine lateWith_bind (Expr.late_bind hscope depth e) fun b hb => ?_
    refine lateWith_bind (Expr.late_bindAll hscope depth es) fun bs hbs => ?_
    show Late (Bound.type b >>= fun t => Bound.types bs >>= fun ts => .ok (t :: ts))
    exact failsIn_bind hb fun _ => failsIn_bind hbs fun _ => trivial

end

theorem Expr.late_typed (hscope : β.scope = .ofTables names tables) (e : Expr τ) :
    Late (e.typed β) := by
  refine LateWith.late (Q := fun _ => True) (lateWith_bind (Expr.late_bind hscope 0 e) ?_)
  intro b hb
  have htype : Late (b.type >>= fun t => .ok (b, t)) := failsIn_bind hb fun _ => trivial
  exact htype.lateWith

theorem Expr.late_condition (hscope : β.scope = .ofTables names tables) (e : Expr τ) :
    Late (e.condition β) := by
  refine failsIn_bind (e.late_typed hscope) fun found => ?_
  split
  · trivial
  · exact nofun

theorem Attribute.late_outputs (hscope : β.scope = .ofTables names tables) (settings : Settings)
    (generated : Nat) (a : Attribute τ) : Late (a.outputs β settings generated) := by
  rcases a with _ | ⟨parts, _⟩ | ⟨e, naming⟩
  · rw [Attribute.outputs, hscope]
    exact failsIn_bind (Scope.late_columnsOfAll _) fun _ => trivial
  · rw [Attribute.outputs, hscope]
    exact failsIn_bind (Scope.late_find _) fun source =>
      failsIn_bind (Scope.late_columnsOf source) fun _ => trivial
  · rw [Attribute.outputs]
    cases e with
    | text _ | null _ | param _ => trivial
    | number leaf => exact failsIn_bind (late_ofNumeral _) fun _ => trivial
    | name parts => exact failsIn_bind (Binder.late_column hscope parts) fun _ => trivial
    | call _ _ | unary _ _ | binary _ _ _ =>
      exact failsIn_bind (Expr.late_typed hscope _) fun _ => trivial

theorem Attribute.late_outputsAll (hscope : β.scope = .ofTables names tables)
    (settings : Settings) : ∀ (generated : Nat) (attributes : List (Attribute τ)),
      Late (Attribute.outputsAll β settings generated attributes)
  | _, [] => trivial
  | generated, a :: attributes =>
    failsIn_bind (a.late_outputs hscope settings generated) fun found =>
      failsIn_bind (Attribute.late_outputsAll hscope settings found.2 attributes) fun _ => trivial

/-- The SELECT list and the WHERE clause are not refused for an alias. -/
theorem Statement.late_meaningOver (hscope : β.scope = .ofTables names tables)
    (settings : Settings) (s : Statement τ) : Late (s.meaningOver β names settings) := by
  refine failsIn_bind (Attribute.late_outputsAll hscope settings 0 s.attributes) fun found => ?_
  cases s.restriction with
  | none => trivial
  | some r => exact failsIn_bind (r.condition.late_condition hscope) fun _ => trivial

end

end SelectEngine
