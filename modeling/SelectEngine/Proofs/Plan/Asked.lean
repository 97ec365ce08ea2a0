import SelectEngine.Proofs.Alike.Binding
import SelectEngine.Proofs.Grammar.Asking
import SelectEngine.Proofs.Grammar.Params
import SelectEngine.Proofs.Plan.Nesting

/-!
# Conditions asked for their truth

A statement that is narrowed by a WHERE clause has the sources and columns that it has without one
(`Statement.meaning_narrow`), and what asks a condition for a truth is bound to what asks the bound
condition for it, the same one for every truth (`Statement.condition_asked`).
-/

set_option autoImplicit false

namespace SelectEngine

open Memory

variable {τ ρ : Type}

/-! ## Leaves -/

mutual

theorem Expr.leaves_map (f : ρ → τ) : ∀ e : Expr ρ,
    (e.map f).leaves = e.leaves.map fun leaf => (leaf.1, f leaf.2)
  | .text _ | .number _ | .null _ | .param _ => rfl
  | .name parts => by
    rw [map, leaves, leaves, partLeaves, partLeaves, List.map_map, List.map_map]
    rfl
  | .call function args => by rw [map, leaves, leaves, Expr.leavesAll_map f args, List.map_cons]
  | .unary op operand => by rw [map, leaves, leaves, Expr.leaves_map f operand]
  | .binary op left right => by
    rw [map, leaves, leaves, Expr.leaves_map f left, Expr.leaves_map f right, List.map_append]

theorem Expr.leavesAll_map (f : ρ → τ) : ∀ es : List (Expr ρ),
    Expr.leavesAll (Expr.mapAll f es) = (Expr.leavesAll es).map fun leaf => (leaf.1, f leaf.2)
  | [] => rfl
  | e :: es => by
    rw [mapAll, leavesAll, leavesAll, Expr.leaves_map f e, Expr.leavesAll_map f es,
      List.map_append]

end

theorem paramsAmong_map (f : ρ → τ) (leaves : List (Leaf ρ)) :
    paramsAmong (leaves.map fun leaf => (leaf.1, f leaf.2)) = (paramsAmong leaves).map f := by
  induction leaves with
  | nil => rfl
  | cons leaf leaves ih =>
    rw [List.map_cons, ← List.singleton_append, paramsAmong_append, ih,
      ← List.singleton_append (l := leaves), paramsAmong_append, List.map_append]
    by_cases hparam : leaf.1 = .param <;> simp [paramsAmong, hparam]

theorem Truth.leaves_asked (t : Truth) (e : Expr τ) : (t.asked e).leaves = e.leaves := by
  rcases t with _ | _ | _ <;> rfl

namespace Statement

variable {s : Statement τ}

theorem leaves_narrow (hs : s.restriction = none) (keyword : τ) (condition : Expr τ) :
    (s.narrow keyword condition).leaves = s.leaves ++ (.token, keyword) :: condition.leaves := by
  simp [narrow, leaves, hs, Restriction.leaves]

/-- The parameters of a condition come behind those of the statement that it narrows. -/
theorem params_narrow (hs : s.restriction = none) (keyword : τ) (condition : Expr τ) :
    (s.narrow keyword condition).params = s.params ++ paramsAmong condition.leaves := by
  rw [params, leaves_narrow hs, paramsAmong_append]
  rfl

end Statement

/-! ## Meanings -/

/-- A bound condition asked for a truth. -/
def Truth.askedBound (t : Truth) (b : Bound) : Bound :=
  match t with
  | some true => b
  | some false => .operation .not [b]
  | none => .operation .isNull [b]

/-- What asks for a truth is bound to what asks the bound condition for it. -/
theorem Truth.bind_asked {t : Truth} {β : Binder τ} {e : Expr τ} {found : Bound}
    (h : (t.asked e).bind β 0 = .ok found) : ∃ b, e.bind β 0 = .ok b ∧ found = t.askedBound b := by
  match t with
  | some true => exact ⟨found, h, rfl⟩
  | some false | none =>
    obtain ⟨u, -, h⟩ := Outcome.bind_eq_ok h
    obtain ⟨b, hb, h⟩ := Outcome.bind_eq_ok h
    cases h
    exact ⟨b, Expr.bind_of_succ hb, rfl⟩

/-- Behind leaves that are not among those of a list, a leaf of the list comes as late as it does in
the list. -/
theorem idxOf_append_map [DecidableEq τ] [DecidableEq ρ] {f : ρ → τ} (hf : f.Injective)
    {front : List τ} {back : List ρ} {leaf : ρ} (hfresh : f leaf ∉ front) :
    (front ++ back.map f).idxOf (f leaf) = front.length + back.idxOf leaf := by
  rw [List.idxOf_append_of_notMem hfresh]
  congr 1
  induction back with
  | nil => rfl
  | cons other back ih =>
    rw [List.map_cons, List.idxOf_cons, List.idxOf_cons, ih]
    by_cases heq : other = leaf
    · simp [heq]
    · have hne : f other ≠ f leaf := fun h => heq (hf h)
      simp [beq_eq_false_iff_ne.mpr hne, beq_eq_false_iff_ne.mpr heq]

namespace Statement

variable [DecidableEq τ] {s : Statement τ} {word word' : τ → String} {catalog : Catalog}
variable {registry : Registry} {settings : Settings} {m m' : Meaning}

/-- A WHERE clause leaves the sources and the columns of a statement as they are. -/
theorem meaning_narrow {keyword : τ} {condition : Expr τ} (hs : s.restriction = none)
    (hwords : s.SameWords word word') (hm : s.meaning word catalog registry settings = .ok m)
    (hm' : (s.narrow keyword condition).meaning word' catalog registry settings = .ok m') :
    m.sources.map SourceName.folded = m'.sources.map SourceName.folded ∧
      m.outputs.map Output.folded = m'.outputs.map Output.folded ∧ m.condition = none := by
  obtain ⟨names, hfound, hm⟩ := Outcome.bind_eq_ok hm
  obtain ⟨names', hfound', hm'⟩ := Outcome.bind_eq_ok hm'
  have hnames := (sources_alike s.sources rfl fun leaf hleaf =>
    hwords.name leaf (mem_leaves_of_sources hleaf)).of_ok hfound hfound'
  obtain ⟨tables, htables, hm⟩ := Outcome.bind_eq_ok hm
  obtain ⟨tables', htables', hm'⟩ := Outcome.bind_eq_ok hm'
  obtain rfl : tables = tables' := (tablesNamed_alike catalog hnames).of_ok htables htables'
  obtain ⟨found, hcolumns, hm⟩ := Outcome.bind_eq_ok hm
  obtain ⟨found', hcolumns', hm'⟩ := Outcome.bind_eq_ok hm'
  -- The WHERE clause comes last, so the parameters in front of it keep their numbers.
  have hbinder : (s.binder word names tables registry settings).Alike
      ((s.narrow keyword condition).binder word' names' tables registry settings) s.leaves :=
    { scope := Scope.alike_ofTables hnames tables
      registry := rfl
      maxDepth := rfl
      ordinal := fun leaf hleaf => by
        have hparam : leaf ∈ s.params := List.mem_filterMap.mpr ⟨_, hleaf, by simp⟩
        show s.params.idxOf leaf + 1 = (s.narrow keyword condition).params.idxOf leaf + 1
        rw [params_narrow hs, List.idxOf_append_of_mem hparam]
      name := hwords.name
      text := hwords.text
      number := hwords.number }
  have houtputs := (Attribute.outputsAll_alike hbinder settings 0 s.attributes
    fun leaf hleaf => mem_leaves_of_attributes hleaf).of_ok hcolumns hcolumns'
  rw [hs] at hm
  obtain ⟨c, hc, hm'⟩ := Outcome.bind_eq_ok hm'
  cases hm
  cases hm'
  exact ⟨hnames, houtputs.1, rfl⟩

/-- The condition of a statement that is narrowed by what asks for a truth. -/
theorem exists_bound_of_asked {keyword : τ} {t : Truth} {e : Expr τ}
    (hm : (s.narrow keyword (t.asked e)).meaning word catalog registry settings = .ok m) :
    ∃ tables b, tablesNamed catalog m.sources = .ok tables ∧
      e.bind ((s.narrow keyword (t.asked e)).binder word m.sources tables registry settings) 0 =
        .ok b ∧
      m.condition = some (t.askedBound b) := by
  obtain ⟨names, hnames, hm⟩ := Outcome.bind_eq_ok hm
  obtain ⟨tables, htables, hm⟩ := Outcome.bind_eq_ok hm
  obtain ⟨outputs, houtputs, hm⟩ := Outcome.bind_eq_ok hm
  obtain ⟨c, hc, hm⟩ := Outcome.bind_eq_ok hm
  cases hm
  obtain ⟨found, htyped, hc⟩ := Outcome.bind_eq_ok hc
  obtain ⟨bound, hbound, htyped⟩ := Outcome.bind_eq_ok htyped
  obtain ⟨type, htype, htyped⟩ := Outcome.bind_eq_ok htyped
  cases htyped
  split at hc
  · cases hc
    obtain ⟨b, hb, rfl⟩ := Truth.bind_asked hbound
    exact ⟨tables, b, htables, hb, rfl⟩
  · cases hc

/-- Two statements that ask for a truth of one condition ask for it of the same bound condition. The
labels of the condition may differ, if they stand for the same words and are not parameters of the
statement that is narrowed. -/
theorem condition_asked [DecidableEq ρ] {keyword keyword' : τ} {t t' : Truth} {e : Expr ρ}
    {f f' : ρ → τ} (hs : s.restriction = none) (hf : f.Injective) (hf' : f'.Injective)
    (hfresh : ∀ leaf ∈ e.leaves, f leaf.2 ∉ s.params ∧ f' leaf.2 ∉ s.params)
    (hwords : ∀ leaf ∈ e.leaves, word (f leaf.2) = word' (f' leaf.2))
    (hsources : m.sources.map SourceName.folded = m'.sources.map SourceName.folded)
    (hm : (s.narrow keyword (t.asked (e.map f))).meaning word catalog registry settings = .ok m)
    (hm' : (s.narrow keyword' (t'.asked (e.map f'))).meaning word' catalog registry settings =
      .ok m') :
    ∃ b, m.condition = some (t.askedBound b) ∧ m'.condition = some (t'.askedBound b) := by
  obtain ⟨tables, b, htables, hb, hcondition⟩ := exists_bound_of_asked hm
  obtain ⟨tables', b', htables', hb', hcondition'⟩ := exists_bound_of_asked hm'
  obtain rfl : tables = tables' := (tablesNamed_alike catalog hsources).of_ok htables htables'
  rw [Expr.bind_map] at hb hb'
  -- The labels of the condition are relabelled parameters behind those of the statement.
  have hordinal {keyword : τ} {t : Truth} {f : ρ → τ} (hf : f.Injective) {leaf : ρ}
      (hleaf : f leaf ∉ s.params) :
      (s.narrow keyword (t.asked (e.map f))).params.idxOf (f leaf) =
        s.params.length + (paramsAmong e.leaves).idxOf leaf := by
    rw [params_narrow hs, Truth.leaves_asked, Expr.leaves_map, paramsAmong_map,
      idxOf_append_map hf hleaf]
  have hbinder :
      (((s.narrow keyword (t.asked (e.map f))).binder word m.sources tables registry
        settings).comap f).Alike
      (((s.narrow keyword' (t'.asked (e.map f'))).binder word' m'.sources tables registry
        settings).comap f') e.leaves :=
    { scope := Scope.alike_ofTables hsources tables
      registry := rfl
      maxDepth := rfl
      ordinal := fun leaf hleaf => congrArg (· + 1) ((hordinal hf (hfresh _ hleaf).1).trans
        (hordinal hf' (hfresh _ hleaf).2).symm)
      name := fun leaf hleaf => congrArg Text.foldCase (hwords _ hleaf)
      text := fun leaf hleaf => hwords _ hleaf
      number := fun leaf hleaf => hwords _ hleaf }
  have halike := Expr.bind_alike hbinder e 0 fun _ hleaf => hleaf
  obtain rfl : b = b' := halike.of_ok hb hb'
  exact ⟨b, hcondition, hcondition'⟩

end Statement

end SelectEngine
