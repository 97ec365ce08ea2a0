import SelectEngine.Plan.Basic
import SelectEngine.Proofs.Correspondence.Evaluation

/-!
# Binding in two monads

Where the columns of two scopes correspond, so do the plans of every statement
(`Correspondence.ofScope`).
-/

set_option autoImplicit false

namespace SelectEngine

/-- The column of that name in a source; `shown` is the name in diagnostics. -/
def Scope.columnIn {m : Type → Type} [Monad m] [MonadExceptOf Error m] (scope : Scope m)
    (source : Nat) (name shown : String) : m ColumnRef := do
  match ← scope.columnId? source name with
  | none => throw (.noSuchColumn shown)
  | some position => do
    let column ← scope.describe source position
    pure (⟨source, position, column⟩)

namespace Correspondence

variable {m n : Type → Type} [Monad m] [MonadExceptOf Error m] [Monad n] [MonadExceptOf Error n]

/-! ## Columns in scope -/

/-- Two scopes of the same sources whose answers correspond. -/
structure Scopes (C : Correspondence m n) (scope : Scope m) (scope' : Scope n) : Prop where
  sources : scope.sources = scope'.sources
  columnCount : ∀ source, C.rel (scope.columnCount source) (scope'.columnCount source)
  columnId : ∀ source name, C.rel (scope.columnId? source name) (scope'.columnId? source name)
  describe : ∀ source position,
    C.rel (scope.describe source position) (scope'.describe source position)

namespace Scopes

variable {C : Correspondence m n} {scope : Scope m} {scope' : Scope n}

theorem firstWith (h : Scopes C scope scope') (name : String) :
    ∀ sources, C.rel (scope.firstWith name sources) (scope'.firstWith name sources)
  | [] => C.returning none
  | i :: rest => by
    simp only [Scope.firstWith]
    refine C.sequencing (h.columnId i name) fun found => ?_
    cases found with
    | none => exact firstWith h name rest
    | some position => exact C.returning _

theorem sourceWith (h : Scopes C scope scope') (name : String) :
    C.rel (scope.sourceWith name) (scope'.sourceWith name) := by
  simp only [Scope.sourceWith, h.sources]
  refine C.sequencing (h.firstWith name _) fun found => ?_
  rcases found with _ | ⟨i, rest⟩
  · exact C.failing _
  · refine C.sequencing (h.firstWith name rest) fun second => ?_
    cases second with
    | none => exact C.returning i
    | some other => exact C.failing _

theorem columnIn (h : Scopes C scope scope') (source : Nat) (name shown : String) :
    C.rel (scope.columnIn source name shown) (scope'.columnIn source name shown) := by
  refine C.sequencing (h.columnId source name) fun found => ?_
  cases found with
  | none => exact C.failing _
  | some position =>
    exact C.sequencing (h.describe source position) fun column => C.returning _

theorem column (h : Scopes C scope scope') (parts : List String) :
    C.rel (scope.column parts) (scope'.column parts) := by
  unfold Scope.column
  dsimp only
  cases parts.getLast? with
  | none => exact C.failing _
  | some name =>
    have located : ∀ source, C.rel (scope.columnIn source name (".".intercalate parts))
        (scope'.columnIn source name (".".intercalate parts)) :=
      fun source => h.columnIn source name _
    cases parts.dropLast with
    | nil => exact C.sequencing (h.sourceWith name) located
    | cons part more =>
      dsimp only
      rw [h.sources]
      split
      · exact C.sequencing (C.failing _) located
      · exact C.sequencing (C.relay _) located

theorem columnsAt (h : Scopes C scope scope') (source : Nat) :
    ∀ positions, C.rel (scope.columnsAt source positions) (scope'.columnsAt source positions)
  | [] => C.returning []
  | position :: rest => by
    simp only [Scope.columnsAt]
    exact C.sequencing (h.describe source position) fun column =>
      C.sequencing (columnsAt h source rest) fun more => C.returning _

theorem columnsOf (h : Scopes C scope scope') (source : Nat) :
    C.rel (scope.columnsOf source) (scope'.columnsOf source) :=
  C.sequencing (h.columnCount source) fun count => h.columnsAt source (List.range count)

theorem columnsOfAll (h : Scopes C scope scope') :
    ∀ sources, C.rel (scope.columnsOfAll sources) (scope'.columnsOfAll sources)
  | [] => C.returning []
  | source :: rest => by
    simp only [Scope.columnsOfAll]
    exact C.sequencing (h.columnsOf source) fun columns =>
      C.sequencing (columnsOfAll h rest) fun more => C.returning _

end Scopes

/-! ## Binding -/

/-- Two resolvers that differ in how they ask for columns and functions, and get corresponding
answers. -/
structure Resolvers (C : Correspondence m n) (r : Resolver m) (r' : Resolver n) : Prop where
  scope : Scopes C r.scope r'.scope
  tree : r.tree = r'.tree
  function : ∀ children, C.rel (r.function children) (r'.function children)
  params : r.params = r'.params
  maxDepth : r.maxDepth = r'.maxDepth

/-- A call means the same function in one registry, whatever the columns are. -/
theorem function (C : Correspondence m n) {r : Resolver m} {r' : Resolver n}
    (htree : r.tree = r'.tree) (hregistry : r.registry = r'.registry) (children : List Branch) :
    C.rel (r.function children) (r'.function children) := by
  simp only [Resolver.function, htree, hregistry]
  split
  · exact C.failing _
  · split
    · exact C.returning _
    · exact C.failing _

namespace Resolvers

variable {C : Correspondence m n} {r : Resolver m} {r' : Resolver n}

theorem guardDepth (h : Resolvers C r r') (depth : Nat) :
    C.rel (r.guardDepth depth) (r'.guardDepth depth) := by
  simp only [Resolver.guardDepth, h.maxDepth]
  split
  · exact C.failing _
  · exact C.returning ()

theorem numbered (h : Resolvers C r r') (id : NodeId) : C.rel (r.numbered id) (r'.numbered id) := by
  simp only [Resolver.numbered, h.params]
  split
  · exact C.returning _
  · exact C.failing _

mutual

/-- An expression resolves alike. -/
theorem resolve (h : Resolvers C r r') (depth : Nat) :
    ∀ b : Branch, (C.withState Resolution).rel (r.resolve depth b) (r'.resolve depth b)
  | .node id kind children => by
    have below (d : Nat) (result : List Bound → Bound) : (C.withState Resolution).rel
        (do let parts ← r.resolveAll d children; pure (result parts))
        (do let parts ← r'.resolveAll d children; pure (result parts)) :=
      (C.withState _).sequencing (resolveAll h d children) fun _ => (C.withState _).returning _
    cases kind with
    | name =>
      simp only [Resolver.resolve, h.tree]
      exact (C.withState _).sequencing (C.lift (h.scope.column _)) fun ref =>
        (C.withState _).sequencing (C.modify _) fun _ => (C.withState _).returning _
    | call =>
      simp only [Resolver.resolve]
      exact (C.withState _).sequencing (C.lift (h.function children)) fun f =>
        (C.withState _).sequencing (C.modify _) fun _ =>
          (C.withState _).sequencing (C.lift (h.guardDepth depth)) fun _ =>
            below (depth + 1) fun parts => .call f parts.tail
    | operation op =>
      simp only [Resolver.resolve]
      exact (C.withState _).sequencing (C.lift (h.guardDepth depth)) fun _ =>
        below (depth + 1) (.operation op)
    | param token =>
      simp only [Resolver.resolve, Resolver.ordinal, h.params]
      exact below depth fun _ => .param (r'.params.idxOf id + 1)
    | text token | number token | null token =>
      simp only [Resolver.resolve, h.tree]
      exact below depth fun _ => .literal ((r'.tree.constant? id).map fun v => v.getD .null)
    | root | select | attributes | star | from_ | where_ | renamed | id token | token token =>
      simp only [Resolver.resolve]
      exact below depth fun _ => .other _

theorem resolveAll (h : Resolvers C r r') (depth : Nat) :
    ∀ bs : List Branch,
      (C.withState Resolution).rel (r.resolveAll depth bs) (r'.resolveAll depth bs)
  | [] => (C.withState _).returning []
  | b :: bs => by
    simp only [Resolver.resolveAll]
    exact (C.withState _).sequencing (resolve h depth b) fun e =>
      (C.withState _).sequencing (resolveAll h depth bs) fun es => (C.withState _).returning _

end

theorem typed (h : Resolvers C r r') (b : Branch) :
    (C.withState Resolution).rel (r.typed b) (r'.typed b) :=
  (C.withState _).sequencing (h.resolve 0 b) fun e =>
    (C.withState _).sequencing ((C.withState _).relay e.type) fun _ => (C.withState _).returning _

theorem selectComputed (h : Resolvers C r r') (settings : Settings) (b : Branch) :
    (C.withState Selection).rel (r.selectComputed settings b) (r'.selectComputed settings b) :=
  (C.withState _).sequencing C.get fun s =>
    (C.withState _).sequencing (C.lift (h.typed b s.resolution)) fun _ => C.set _

theorem selectStar (h : Resolvers C r r') (b : Branch) :
    (C.withState Selection).rel (r.selectStar b) (r'.selectStar b) := by
  simp only [Resolver.selectStar, h.tree, h.scope.sources]
  split
  · exact (C.withState _).sequencing ((C.withState _).relay _) fun source =>
      (C.withState _).sequencing (C.lift (h.scope.columnsOf source)) fun _ => C.modify _
  · exact (C.withState _).sequencing (C.lift (h.scope.columnsOfAll _)) fun _ => C.modify _

mutual

/-- An attribute gives the same fields. -/
theorem select (h : Resolvers C r r') (settings : Settings) :
    ∀ b : Branch, (C.withState Selection).rel (r.select settings b) (r'.select settings b)
  | .node id kind children => by
    cases kind with
    | attributes => exact selectAll h settings children
    | star => exact h.selectStar _
    | renamed =>
      simp only [Resolver.select, h.tree]
      refine (C.withState _).sequencing ((C.withState _).relay _) fun named => ?_
      exact (C.withState _).sequencing (C.modify _) fun _ =>
        (C.withState _).sequencing (selectFirst h settings children) fun _ => C.modify _
    | text token | number token | null token =>
      simp only [Resolver.select, h.tree]
      exact (C.withState _).sequencing ((C.withState _).relay _) fun _ => C.modify _
    | name =>
      simp only [Resolver.select, h.tree]
      exact (C.withState _).sequencing (C.lift (h.scope.column _)) fun _ => C.modify _
    | param token =>
      simp only [Resolver.select]
      exact (C.withState _).sequencing (C.lift (h.numbered id)) fun _ => C.modify _
    | operation op | call => exact h.selectComputed settings _
    | root | select | from_ | where_ | id token | token token => exact (C.withState _).failing _

theorem selectAll (h : Resolvers C r r') (settings : Settings) :
    ∀ bs : List Branch,
      (C.withState Selection).rel (r.selectAll settings bs) (r'.selectAll settings bs)
  | [] => (C.withState _).returning ()
  | b :: bs => (C.withState _).sequencing (select h settings b) fun _ => selectAll h settings bs

theorem selectFirst (h : Resolvers C r r') (settings : Settings) :
    ∀ bs : List Branch,
      (C.withState Selection).rel (r.selectFirst settings bs) (r'.selectFirst settings bs)
  | [] => (C.withState _).returning ()
  | b :: _ => select h settings b

end

theorem predicateOf (h : Resolvers C r r') (condition : Branch) :
    (C.withState Resolution).rel (Plan.predicateOf r condition)
      (Plan.predicateOf r' condition) := by
  refine (C.withState _).sequencing (h.typed condition) fun typed => ?_
  dsimp only
  split
  · exact (C.withState _).returning _
  · exact (C.withState _).failing _

end Resolvers

/-- A statement binds alike against corresponding scopes with registries of which the functions
correspond. -/
theorem ofScope_registries {C : Correspondence m n} {scope : Scope m} {scope' : Scope n}
    {registry registry' : Registry} (h : Scopes C scope scope') (tree : Tree) (statement : Branch)
    (settings : Settings)
    (hfunction : ∀ params children,
      C.rel (Resolver.function ⟨tree, scope, registry, params, settings.maxDepth⟩ children)
        (Resolver.function ⟨tree, scope', registry', params, settings.maxDepth⟩ children)) :
    C.rel (Plan.ofScope tree statement scope registry settings)
      (Plan.ofScope tree statement scope' registry' settings) := by
  unfold Plan.ofScope Plan.resolved
  refine C.sequencing ?_ fun p => C.returning p.settle
  have resolvers : Resolvers C
      { tree, scope, registry, params := Plan.paramNodes tree statement,
        maxDepth := settings.maxDepth }
      { tree, scope := scope', registry := registry', params := Plan.paramNodes tree statement,
        maxDepth := settings.maxDepth } := ⟨h, rfl, hfunction _, rfl, rfl⟩
  refine C.sequencing (C.relay _) fun attributes => ?_
  refine C.sequencing (resolvers.select settings attributes _) fun selected => ?_
  rw [h.sources]
  cases (statement.child? .where_).bind fun w => w.children.getLast? with
  | none => exact C.sequencing (C.returning _) fun _ => C.returning _
  | some condition =>
    refine C.sequencing (resolvers.predicateOf condition _) fun found => ?_
    exact C.sequencing (C.returning _) fun _ => C.returning _

/-- A statement binds alike against corresponding scopes. -/
theorem ofScope {C : Correspondence m n} {scope : Scope m} {scope' : Scope n}
    (h : Scopes C scope scope') (tree : Tree) (statement : Branch) (registry : Registry)
    (settings : Settings) :
    C.rel (Plan.ofScope tree statement scope registry settings)
      (Plan.ofScope tree statement scope' registry settings) :=
  ofScope_registries h tree statement settings fun _ => C.function rfl rfl

end Correspondence

end SelectEngine
