import SelectEngine.Proofs.Alike.Names
import SelectEngine.Proofs.Correspondence.Binding
import SelectEngine.Proofs.Plan.Agreement
import SelectEngine.Proofs.Plan.Gives
import SelectEngine.Proofs.Plan.Graft
import SelectEngine.Proofs.Plan.Resolved
import SelectEngine.Proofs.Tree.Read

/-!
# Names with the name of a table in front

A qualifier of two or three parts is the name of a table, and more than one source may have a table
that it fits. Such a name means the first source in FROM order that it fits
(`Cursor.qualified_first`), whatever others it fits as well (`Memory.qualified_not_unique`).
-/

set_option autoImplicit false

namespace SelectEngine

variable {S τ : Type}

/-! ## Qualifiers -/

namespace SourceName

/-- The qualifier is the name of a table that means the table of the source: the tables agree, and
so do the schema and the catalog if they are given, up to letter case. -/
def Fits (qualifier : List String) (s : SourceName) : Prop :=
  ∃ wanted, TableName.ofParts qualifier = some wanted ∧ wanted.means s.table = true

/-- The source of this number is the first whose table the qualifier fits. -/
structure First (sources : List SourceName) (qualifier : List String) (n : Nat) : Prop where
  lt : n < sources.length
  fits : sources[n].Fits qualifier
  before : ∀ (m : Nat) (hm : m < n), ¬ sources[m].Fits qualifier

variable {sources : List SourceName} {qualifier : List String} {n : Nat}

theorem fits_iff {wanted : TableName} (h : TableName.ofParts qualifier = some wanted)
    (s : SourceName) : s.Fits qualifier ↔ wanted.means s.table = true := by
  rw [Fits, h]
  exact ⟨fun ⟨_, heq, hmeans⟩ => Option.some.inj heq ▸ hmeans, fun hmeans => ⟨wanted, rfl, hmeans⟩⟩

/-- What a qualifier of more than one part is found to mean. -/
theorem find_eq_ok_iff (h : 2 ≤ qualifier.length) :
    find sources qualifier = .ok n ↔ First sources qualifier n := by
  rw [find_table sources (Nat.ne_of_gt h)]
  cases hparts : TableName.ofParts qualifier with
  | none =>
    refine ⟨nofun, fun hfirst => ?_⟩
    obtain ⟨wanted, hwanted, -⟩ := hfirst.fits
    cases hparts.symm.trans hwanted
  | some wanted =>
    have hfirst : (sources.findIdx? fun s => wanted.means s.table) = some n ↔
        First sources qualifier n := by
      rw [List.findIdx?_eq_some_iff_getElem]
      simp only [← fits_iff hparts]
      exact ⟨fun ⟨hlt, hfits, hbefore⟩ => ⟨hlt, hfits, hbefore⟩,
        fun hfirst => ⟨hfirst.lt, hfirst.fits, hfirst.before⟩⟩
    rw [← hfirst, Option.bind_some]
    cases sources.findIdx? fun s => wanted.means s.table <;> simp

end SourceName

/-! ## Columns in scope -/

namespace Scope

/-- The column of a name that has a qualifier of more than one part is one of the first source that
the qualifier fits. -/
def FirstOf (sources : List SourceName) (parts : List String) (ref : ColumnRef) : Prop :=
  2 ≤ parts.dropLast.length → SourceName.First sources parts.dropLast ref.source

theorem returns_columnIn (scope : Scope (Run S)) (source : Nat) (name shown : String) :
    Run.Returns (scope.columnIn source name shown) fun ref => ref.source = source := by
  refine Run.returns_bind (Run.returns_any _) fun found _ => ?_
  cases found with
  | none => exact Run.returns_throw _ _
  | some position =>
    exact Run.returns_bind (Run.returns_any _) fun _ _ => Run.returns_pure rfl

theorem returns_column (scope : Scope (Run S)) (parts : List String) :
    Run.Returns (scope.column parts) (FirstOf scope.sources parts) := by
  unfold column
  dsimp only
  split
  · exact Run.returns_throw _ _
  · next name _ =>
    -- The column belongs to the source, however that was found.
    have hcolumn (source : Nat)
        (hsource : 2 ≤ parts.dropLast.length →
          SourceName.First scope.sources parts.dropLast source) :
        Run.Returns (scope.columnIn source name (".".intercalate parts))
          (FirstOf scope.sources parts) := by
      intro state ref later href
      obtain rfl := returns_columnIn scope source name _ state ref later href
      exact hsource
    split
    · next hnone =>
      refine Run.returns_bind (Run.returns_any _) fun source _ => hcolumn source fun htwo => ?_
      rw [hnone] at htwo
      exact absurd htwo (by decide)
    · split
      · exact Run.returns_bind (Run.returns_throw _ fun _ => False) fun _ h => h.elim
      · refine Run.returns_bind (Run.returns_relay fun _ hfind => hfind) fun source hfind => ?_
        exact hcolumn source fun htwo => (SourceName.find_eq_ok_iff htwo).mp hfind

theorem returns_columnsAt (scope : Scope (Run S)) (source : Nat) : ∀ positions : List Nat,
    Run.Returns (scope.columnsAt source positions) fun refs => ∀ ref ∈ refs, ref.source = source
  | [] => Run.returns_pure (List.forall_mem_nil _)
  | _ :: rest =>
    Run.returns_bind (Run.returns_any _) fun _ _ =>
      Run.returns_bind (returns_columnsAt scope source rest) fun _ hrest =>
        Run.returns_pure (List.forall_mem_cons.mpr ⟨rfl, hrest⟩)

theorem returns_columnsOf (scope : Scope (Run S)) (source : Nat) :
    Run.Returns (scope.columnsOf source) fun refs => ∀ ref ∈ refs, ref.source = source :=
  Run.returns_bind (Run.returns_any _) fun _ _ => returns_columnsAt scope source _

end Scope

/-! ## Names inside expressions -/

section

variable (word : τ → String) (sources : List SourceName)

mutual

/-- Every name of the expression that has the name of a table in front is bound to a column of the
first source that this fits. -/
def Expr.MeansFirst : Expr τ → Bound → Prop
  | .text _, _ | .number _, _ | .null _, _ | .param _, _ => True
  | .name parts, e => ∃ ref, e = .column ref ∧ Scope.FirstOf sources (parts.map word) ref
  | .call _ args, e => ∃ f es, e = .call f es ∧ Expr.MeanFirst args es
  | .unary op operand, e =>
    ∃ operand', e = .operation op [operand'] ∧ operand.MeansFirst operand'
  | .binary op left right, e => ∃ left' right', e = .operation op [left', right'] ∧
      left.MeansFirst left' ∧ right.MeansFirst right'

def Expr.MeanFirst : List (Expr τ) → List Bound → Prop
  | [], bound => bound = []
  | e :: es, bound =>
    ∃ first rest, bound = first :: rest ∧ e.MeansFirst first ∧ Expr.MeanFirst es rest

end

/-- The fields of an attribute are those of its expression, or of the first source that the name in
front of a star fits if it is the name of a table. -/
def Attribute.MeansFirst : Attribute τ → List Field → Prop
  | .star _, _ => True
  | .starOf parts _, fields => ∃ source,
      (2 ≤ parts.length → SourceName.First sources (parts.map word) source) ∧
        ∀ f ∈ fields, ∃ ref, f.kind = .data ref ∧ ref.source = source
  | .value e _, fields => ∃ f, fields = [f] ∧ e.MeansFirst word sources f.expression

end

namespace Resolver

variable {r : Resolver (Run S)}

theorem returns_name {parts : List (Fin r.tree.tokens.size)} {id n : NodeId}
    (h : r.tree.Has (.node id .name (partBranches n (parts.map Fin.val)))) :
    Run.Returns (r.scope.column (r.tree.nameParts id))
      (Scope.FirstOf r.scope.sources (parts.map r.tree.spelling)) := by
  rw [h.nameParts]
  exact r.scope.returns_column _

mutual

/-- The induction is on the expression, and every case follows the steps that its node takes. -/
theorem resolve_meansFirst (depth : Nat) : ∀ (n : Nat) (e : Expr (Fin r.tree.tokens.size)),
    r.tree.Has ((e.map Fin.val).branch n) →
      Run.ReturnsWith (r.resolve depth ((e.map Fin.val).branch n))
        (e.MeansFirst r.tree.spelling r.scope.sources)
  | _, .text _, _ | _, .number _, _ | _, .null _, _ | _, .param _, _ => fun _ _ _ _ _ => trivial
  | n, .name parts, h => by
    rw [Expr.map, Expr.branch] at h ⊢
    rw [resolve]
    refine Run.returnsWith_bind (Run.returnsWith_lift (returns_name h)) fun ref href => ?_
    refine Run.returnsWith_bind (Run.returnsWith_any _) fun _ _ => ?_
    exact Run.returnsWith_pure ⟨ref, rfl, href⟩
  | n, .call function args, h => by
    rw [Expr.map, Expr.branch] at h ⊢
    have hargs := resolveAll_meanFirst (depth + 1) (n + 1) args fun b hb =>
      h.below (List.mem_cons_of_mem _ hb)
    rw [resolve]
    refine Run.returnsWith_bind (Run.returnsWith_any _) fun f _ => ?_
    refine Run.returnsWith_bind (Run.returnsWith_any _) fun _ _ => ?_
    refine Run.returnsWith_bind (Run.returnsWith_any _) fun _ _ => ?_
    refine Run.returnsWith_bind (resolveAll_cons_returns (Run.returnsWith_any _) hargs)
      fun parts hparts => ?_
    -- The name of the function is the first branch, and is dropped.
    obtain ⟨_, es, rfl, -, hes⟩ := hparts
    exact Run.returnsWith_pure ⟨f, es, rfl, hes⟩
  | n, .unary op operand, h => by
    rw [Expr.map, Expr.branch] at h ⊢
    have hoperand := resolve_meansFirst (depth + 1) n operand (h.below List.mem_cons_self)
    rw [resolve]
    refine Run.returnsWith_bind (Run.returnsWith_any _) fun _ _ => ?_
    refine Run.returnsWith_bind (resolveAll_cons_returns hoperand (resolveAll_nil_returns _))
      fun parts hparts => ?_
    obtain ⟨bound, _, rfl, hbound, rfl⟩ := hparts
    exact Run.returnsWith_pure ⟨bound, rfl, hbound⟩
  | n, .binary op left right, h => by
    rw [Expr.map, Expr.branch] at h ⊢
    have hleft := resolve_meansFirst (depth + 1) n left (h.below List.mem_cons_self)
    have hright := resolve_meansFirst (depth + 1) (n + (left.map Fin.val).size) right
      (h.below (List.mem_cons_of_mem _ List.mem_cons_self))
    rw [resolve]
    refine Run.returnsWith_bind (Run.returnsWith_any _) fun _ _ => ?_
    refine Run.returnsWith_bind
      (resolveAll_cons_returns hleft (resolveAll_cons_returns hright (resolveAll_nil_returns _)))
      fun parts hparts => ?_
    obtain ⟨bound, _, rfl, hbound, other, _, rfl, hother, rfl⟩ := hparts
    exact Run.returnsWith_pure ⟨bound, other, rfl, hbound, hother⟩

theorem resolveAll_meanFirst (depth : Nat) :
    ∀ (n : Nat) (es : List (Expr (Fin r.tree.tokens.size))),
      (∀ b ∈ Expr.branches n (Expr.mapAll Fin.val es), r.tree.Has b) →
        Run.ReturnsWith (r.resolveAll depth (Expr.branches n (Expr.mapAll Fin.val es)))
          (Expr.MeanFirst r.tree.spelling r.scope.sources es)
  | _, [], _ => resolveAll_nil_returns depth
  | n, e :: es, h => by
    rw [Expr.mapAll, Expr.branches] at h ⊢
    obtain ⟨hfirst, hrest⟩ := List.forall_mem_cons.mp h
    exact resolveAll_cons_returns (resolve_meansFirst depth n e hfirst)
      (resolveAll_meanFirst depth _ es hrest)

end

/-! ## The SELECT list -/

theorem select_expr_meansFirst (settings : Settings) (e : Expr (Fin r.tree.tokens.size)) (n : Nat)
    (h : r.tree.Has ((e.map Fin.val).branch n)) :
    Gives (r.select settings ((e.map Fin.val).branch n)) fun fields =>
      ∃ f, fields = [f] ∧ e.MeansFirst r.tree.spelling r.scope.sources f.expression :=
  (gives_expression (resolve_meansFirst 0 n e h)).mono
    fun _ ⟨f, hf, hmeans, _⟩ => ⟨f, hf, hmeans⟩

theorem select_meansFirst (settings : Settings) (a : Attribute (Fin r.tree.tokens.size)) (n : Nat)
    (h : r.tree.Has ((a.map Fin.val).branch n)) :
    Gives (r.select settings ((a.map Fin.val).branch n))
      (a.MeansFirst r.tree.spelling r.scope.sources) := by
  rcases a with leaf | ⟨parts, leaf⟩ | ⟨e, _ | naming⟩
  · rw [Attribute.map, Attribute.branch, select]
    exact gives_lift (Run.returns_any _) fun refs _ => gives_columns refs trivial
  · have hname := h.below List.mem_cons_self
    have hchild : (((Attribute.starOf (parts.map Fin.val) leaf.val).branch n).child? .name) =
        some (.node (n + (parts.map Fin.val).length) .name (partBranches n (parts.map Fin.val))) :=
      rfl
    rw [Attribute.branch] at hchild
    rw [Attribute.map, Attribute.branch, select, selectStar, hchild]
    simp only [Branch.id, hname.nameParts]
    refine gives_relay fun source hfind => ?_
    refine gives_lift (r.scope.returns_columnsOf source) fun refs hrefs => gives_columns refs ?_
    refine ⟨source, fun htwo => ?_, fun f hf => ?_⟩
    · exact (SourceName.find_eq_ok_iff (by rwa [List.length_map])).mp hfind
    · obtain ⟨ref, href, rfl⟩ := List.mem_map.mp hf
      exact ⟨ref, rfl, hrefs ref href⟩
  · exact select_expr_meansFirst settings e n h
  · have hvalue := h.below List.mem_cons_self
    rw [Attribute.map, Option.map_some, Attribute.branch, select]
    exact gives_relay fun named _ => gives_renamed (select_expr_meansFirst settings e n hvalue)

end Resolver

/-! ## Plans -/

namespace Plan

/-- The sources of the plan are those of the statement, and every name of the statement that has the
name of a table in front means the first of these that it fits. -/
structure MeansFirst (p : Plan) (s : Statement τ) (word : τ → String) : Prop where
  sources : s.sources.foldlM (FromItem.register word) [] = .ok p.sources
  attributes : ∃ groups, p.fields = groups.flatten ∧
    List.Forall₂ (Attribute.MeansFirst word p.sources) s.attributes groups
  condition : ∀ restriction, s.restriction = some restriction → ∃ found, p.predicate = some found ∧
    restriction.condition.MeansFirst word p.sources found.2

variable {tree : Tree} {s : Statement (Fin tree.tokens.size)}

theorem ofScope_meansFirst (h : tree.Has ((s.map Fin.val).branch 0)) (scope : Scope (Run S))
    (registry : Registry) (settings : Settings)
    (hsources : s.sources.foldlM (FromItem.register tree.spelling) [] = .ok scope.sources) :
    Run.Returns (ofScope tree ((s.map Fin.val).branch 0) scope registry settings)
      fun plan => plan.tree = tree ∧ plan.MeansFirst s tree.spelling := by
  have hlist := h.below (List.mem_cons_of_mem _ List.mem_cons_self)
  let r : Resolver (Run S) :=
    ⟨tree, scope, registry, paramNodes tree ((s.map Fin.val).branch 0), settings.maxDepth⟩
  have hselect := Resolver.gives_attributes (Resolver.select_meansFirst (r := r) settings)
    s.attributes (0 + 1) fun b hb => hlist.below hb
  have hcondition : ∀ labelled, (s.map Fin.val).restriction = some labelled →
      Run.ReturnsWith (predicateOf r (labelled.condition.branch (whereStart (s.map Fin.val) + 1)))
        fun found => ∀ restriction, s.restriction = some restriction →
          restriction.condition.MeansFirst tree.spelling scope.sources found.2 := by
    intro labelled hlabelled
    obtain ⟨restriction, hrestriction, rfl⟩ := Option.map_eq_some_iff.mp hlabelled
    intro resolution state found later hfound other hother
    cases hrestriction.symm.trans hother
    exact (predicateOf_returns (Resolver.resolve_meansFirst 0 _ _ (has_condition h hlabelled))
      resolution state found later hfound).2
  intro state plan later hplan
  obtain ⟨rfl, hscope, -, hfields, -, hsome⟩ :=
    returns_ofScope_of_gives h rfl hselect hcondition state plan later hplan
  rw [← hscope] at hsources hfields hsome
  refine ⟨rfl, hsources, hfields, fun restriction hrestriction => ?_⟩
  obtain ⟨found, hfound, hmeans⟩ := hsome _ (congrArg (Option.map _) hrestriction)
  exact ⟨found, hfound, hmeans restriction hrestriction⟩

end Plan

namespace Cursor

variable {σ γ : Type} {B : Backend σ γ} {registry : Registry} {settings : Settings} {text : String}
variable {world : γ} {c : Cursor σ γ}

/-- Over any backend, every name of a statement that has the name of a table in front, of two parts
or of three, means the first source in FROM order that this fits. -/
theorem qualified_first (h : prepare B registry settings text world = .ok c) :
    ∃ (plan : Plan) (ts : List Token) (s : Statement (Fin plan.tree.tokens.size)),
      c.plan = some plan ∧ plan.tree.ReadAs settings.reading text ts s ∧
        plan.MeansFirst s plan.tree.spelling := by
  obtain ⟨tree, plan, session, htree, hbind, rfl⟩ := prepare_eq_ok h
  obtain ⟨ts, s, hread⟩ := Tree.exists_readAs_of_parse htree
  obtain ⟨scope, opened, hnames, hplan⟩ := Session.bind_eq_ok hread.holds hbind
  have hwords : (s.map Fin.val).sources.foldlM (FromItem.register tree.word) [] =
      s.sources.foldlM (FromItem.register tree.spelling) [] :=
    Statement.foldlM_register s.sources [] fun leaf _ _ => Tree.word_val leaf.2
  obtain ⟨rfl, hmeans⟩ := Plan.ofScope_meansFirst hread.holds.has scope registry settings
    (hwords.symm.trans hnames) _ _ _ hplan
  exact ⟨plan, ts, s, rfl, hread, hmeans⟩

end Cursor

/-! ## A name that fits two sources -/

namespace Memory

/-- Two tables of one name and one schema in different catalogs. -/
def twoCatalogs : Catalog :=
  ⟨[(⟨some "c1", some "s", "t"⟩, ⟨[.ofType "a" .integer], [[.integer 1]], by decide⟩),
    (⟨some "c2", some "s", "t"⟩, ⟨[.ofType "a" .integer], [[.integer 2]], by decide⟩)]⟩

/-- Names in front that fit both sources, in the SELECT list, before a star and in the condition,
beside names that fit the second alone. -/
theorem qualified_first_two_catalogs : ∃ c,
    Cursor.prepare (backend twoCatalogs) .empty .default
        "SELECT S.T.a, c2.s.t.*, s.t.* FROM c1.s.t AS x, c2.s.t AS y WHERE s.t.a < c2.s.t.a" () =
      .ok c ∧
    ∃ (plan : Plan) (ts : List Token) (s : Statement (Fin plan.tree.tokens.size)),
      c.plan = some plan ∧ plan.tree.ReadAs Settings.default.reading
        "SELECT S.T.a, c2.s.t.*, s.t.* FROM c1.s.t AS x, c2.s.t AS y WHERE s.t.a < c2.s.t.a" ts s ∧
        plan.MeansFirst s plan.tree.spelling := by
  have hsome : (Cursor.prepare (backend twoCatalogs) .empty .default
      "SELECT S.T.a, c2.s.t.*, s.t.* FROM c1.s.t AS x, c2.s.t AS y WHERE s.t.a < c2.s.t.a"
        ()).toOption.isSome = true := by
    decide +kernel
  cases h : Cursor.prepare (backend twoCatalogs) .empty .default
      "SELECT S.T.a, c2.s.t.*, s.t.* FROM c1.s.t AS x, c2.s.t AS y WHERE s.t.a < c2.s.t.a" () with
  | error e =>
    rw [h] at hsome
    cases hsome
  | ok c => exact ⟨c, rfl, Cursor.qualified_first h⟩

/-- A statement that binds a name to a column of the first of two sources that its qualifier
fits. -/
theorem qualified_not_unique :
    ∃ c plan, Cursor.prepare (backend twoCatalogs) .empty .default
        "SELECT s.t.a FROM c1.s.t AS x, c2.s.t AS y" () = .ok c ∧ c.plan = some plan ∧
      plan.fields.map (fun f => match f.kind with
        | .data ref => some ref.source
        | _ => none) = [some 0] ∧
      plan.sources.length = 2 ∧ ∀ source ∈ plan.sources, source.Fits ["s", "t"] := by
  have hplan : (((Cursor.prepare (backend twoCatalogs) .empty .default
      "SELECT s.t.a FROM c1.s.t AS x, c2.s.t AS y" ()).toOption.bind Cursor.plan).map fun p =>
        (p.fields.map fun f => match f.kind with
          | .data ref => some ref.source
          | _ => none, p.sources)) =
      some ([some 0], [⟨"x", some "c1", some "s", "t"⟩, ⟨"y", some "c2", some "s", "t"⟩]) := by
    decide +kernel
  cases h : Cursor.prepare (backend twoCatalogs) .empty .default
      "SELECT s.t.a FROM c1.s.t AS x, c2.s.t AS y" () with
  | error e =>
    rw [h] at hplan
    cases hplan
  | ok c =>
    rw [h] at hplan
    obtain ⟨plan, hfound, hplan⟩ := Option.map_eq_some_iff.mp hplan
    obtain ⟨hfields, hsources⟩ := Prod.mk.inj hplan
    refine ⟨c, plan, rfl, hfound, hfields, by rw [hsources]; rfl, fun source hsource => ?_⟩
    rw [hsources] at hsource
    rw [SourceName.fits_iff rfl]
    revert source
    decide

end Memory

end SelectEngine
