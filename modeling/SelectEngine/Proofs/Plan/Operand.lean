import SelectEngine.Proofs.Plan.Depth

/-!
# Operands of an expression

An operand stands in an expression at a path, the places of the operands on the way to it
(`Expr.at?`). What the expression is bound to has an operand at the same path, to which the operand
is bound (`Expr.BindsTo.exists_at?`), and there is room for the operand below the length of the path
(`Expr.add_nesting_le`). A parameter of a statement stands at a path of one of its expressions
(`Statement.exists_at?_of_param`), and an expression that is put in its place stands there as well
(`Statement.exists_at?_of_graft`).
-/

set_option autoImplicit false

namespace SelectEngine

variable {τ ρ : Type}

/-- The operands of an operator or the arguments of a call. -/
def Expr.operands : Expr τ → List (Expr τ)
  | .text _ | .number _ | .null _ | .param _ | .name _ => []
  | .call _ args => args
  | .unary _ operand => [operand]
  | .binary _ left right => [left, right]

/-- The operand at a path. -/
def Expr.at? : List Nat → Expr τ → Option (Expr τ)
  | [], e => some e
  | i :: path, e => e.operands[i]?.bind (Expr.at? path)

def Bound.operands : Bound → List Bound
  | .literal _ | .param _ | .column _ | .other _ => []
  | .call _ args | .unbound _ args => args
  | .operation _ operands => operands

def Bound.at? : List Nat → Bound → Option Bound
  | [], b => some b
  | i :: path, b => b.operands[i]?.bind (Bound.at? path)

/-! ## Binding -/

section

variable {word : TokenId → String} {registry : Registry}

theorem Expr.AllBindTo.exists_getElem? {es : List (Expr TokenId)} {bs : List Bound} {i : Nat}
    {e : Expr TokenId} (h : Expr.AllBindTo word registry es bs) (he : es[i]? = some e) :
    ∃ b, bs[i]? = some b ∧ e.BindsTo word registry b := by
  induction es generalizing bs i with
  | nil => cases he
  | cons first es ih =>
    obtain ⟨b, rest, rfl, hfirst, hrest⟩ := h
    cases i with
    | zero =>
      cases he
      exact ⟨b, rfl, hfirst⟩
    | succ i =>
      obtain ⟨found, hfound, hbinds⟩ := ih hrest he
      exact ⟨found, hfound, hbinds⟩

theorem Expr.BindsTo.operands {e : Expr TokenId} {b : Bound} (h : e.BindsTo word registry b) :
    Expr.AllBindTo word registry e.operands b.operands := by
  cases e with
  | text | number | null =>
    cases h
    rfl
  | param | name =>
    obtain ⟨_, rfl⟩ := h
    rfl
  | call function args =>
    obtain ⟨f, -, bs, rfl, hargs⟩ := h
    exact hargs
  | unary op operand =>
    obtain ⟨operand', rfl, hoperand⟩ := h
    exact ⟨operand', [], rfl, hoperand, rfl⟩
  | binary op left right =>
    obtain ⟨left', right', rfl, hleft, hright⟩ := h
    exact ⟨left', [right'], rfl, hleft, right', [], rfl, hright, rfl⟩

/-- An operand is bound to the operand at its path. -/
theorem Expr.BindsTo.exists_at? {path : List Nat} {e o : Expr TokenId} {b : Bound}
    (h : e.BindsTo word registry b) (ho : e.at? path = some o) :
    ∃ operand, b.at? path = some operand ∧ o.BindsTo word registry operand := by
  induction path generalizing e b with
  | nil =>
    cases ho
    exact ⟨b, rfl, h⟩
  | cons i path ih =>
    rw [Expr.at?] at ho
    obtain ⟨e', he', hpath⟩ := Option.bind_eq_some_iff.mp ho
    obtain ⟨b', hb', hbinds⟩ := AllBindTo.exists_getElem? (BindsTo.operands h) he'
    rw [Bound.at?, hb']
    exact ih hbinds hpath

end

/-! ## Nesting -/

theorem Expr.nesting_le_nestingAll {e : Expr τ} {es : List (Expr τ)} (h : e ∈ es) :
    e.nesting ≤ Expr.nestingAll es := by
  induction es with
  | nil => cases h
  | cons first es ih =>
    rw [Expr.nestingAll]
    rcases List.mem_cons.mp h with rfl | h
    · exact Nat.le_max_left _ _
    · exact (ih h).trans (Nat.le_max_right _ _)

theorem Expr.nesting_lt_of_operand {e o : Expr τ} (h : o ∈ e.operands) : o.nesting < e.nesting := by
  cases e with
  | text | number | null | param | name => cases h
  | call function args => exact Nat.lt_succ_of_le (nesting_le_nestingAll h)
  | unary op operand =>
    cases List.mem_singleton.mp h
    exact Nat.lt_succ_self _
  | binary op left right =>
    rw [Expr.nesting]
    rcases List.mem_pair.mp h with rfl | rfl <;> omega

/-- Every step of a path uses up a level. -/
theorem Expr.add_nesting_le {path : List Nat} {e o : Expr τ} (h : e.at? path = some o) :
    path.length + o.nesting ≤ e.nesting := by
  induction path generalizing e with
  | nil =>
    cases h
    exact (Nat.zero_add _).le
  | cons i path ih =>
    rw [Expr.at?] at h
    obtain ⟨e', he', hpath⟩ := Option.bind_eq_some_iff.mp h
    have hlt := nesting_lt_of_operand (List.mem_of_getElem? he')
    have hle := ih hpath
    rw [List.length_cons]
    omega

/-! ## Parameters -/

theorem Expr.at?_cons {e e' o : Expr τ} {i : Nat} {path : List Nat}
    (h : e.operands[i]? = some e') (ho : e'.at? path = some o) :
    e.at? (i :: path) = some o := by
  rw [Expr.at?, h]
  exact ho

mutual

/-- The induction is on the expression: a parameter of it is one of an operand, or is the whole. -/
theorem Expr.exists_at?_of_param {p : τ} : ∀ e : Expr τ, (.param, p) ∈ e.leaves →
    ∃ path, e.at? path = some (.param p)
  | .text _, h | .number _, h | .null _, h => by
    cases List.mem_singleton.mp h
  | .param leaf, h => by
    cases List.mem_singleton.mp h
    exact ⟨[], rfl⟩
  | .name parts, h => by
    obtain ⟨part, -, hpart⟩ := List.mem_map.mp h
    cases hpart
  | .call function args, h => by
    rcases List.mem_cons.mp h with heq | hargs
    · cases heq
    · obtain ⟨i, e, he, path, hpath⟩ := Expr.exists_operand_of_param args hargs
      exact ⟨i :: path, Expr.at?_cons he hpath⟩
  | .unary op operand, h => by
    obtain ⟨path, hpath⟩ := Expr.exists_at?_of_param operand h
    exact ⟨0 :: path, Expr.at?_cons rfl hpath⟩
  | .binary op left right, h => by
    rcases List.mem_append.mp h with hleft | hright
    · obtain ⟨path, hpath⟩ := Expr.exists_at?_of_param left hleft
      exact ⟨0 :: path, Expr.at?_cons rfl hpath⟩
    · obtain ⟨path, hpath⟩ := Expr.exists_at?_of_param right hright
      exact ⟨1 :: path, Expr.at?_cons rfl hpath⟩

theorem Expr.exists_operand_of_param {p : τ} : ∀ es : List (Expr τ), (.param, p) ∈ Expr.leavesAll es →
    ∃ (i : Nat) (e : Expr τ), es[i]? = some e ∧ ∃ path, e.at? path = some (.param p)
  | [], h => nomatch h
  | e :: es, h => by
    rcases List.mem_append.mp h with hfirst | hrest
    · exact ⟨0, e, rfl, Expr.exists_at?_of_param e hfirst⟩
    · obtain ⟨i, e', he', hpath⟩ := Expr.exists_operand_of_param es hrest
      exact ⟨i + 1, e', he', hpath⟩

end

/-- A parameter of a statement stands in one of its expressions. -/
theorem Statement.exists_at?_of_param {s : Statement τ} {p : τ} (h : (.param, p) ∈ s.leaves) :
    ∃ e ∈ s.expressions, ∃ path, e.at? path = some (.param p) := by
  have hparts {parts : List τ} : (NodeType.param, p) ∉ partLeaves parts := by
    intro hmem
    obtain ⟨part, -, hpart⟩ := List.mem_map.mp hmem
    cases hpart
  have hnaming {naming : Option (Naming τ)} : (NodeType.param, p) ∉ namingLeaves naming := by
    rcases naming with _ | ⟨_ | keyword, name⟩ <;> simp [namingLeaves, Naming.leaves]
  rw [Statement.leaves] at h
  simp only [List.mem_append, List.mem_cons, Prod.mk.injEq, reduceCtorEq, false_and, false_or] at h
  rcases h with (hattributes | hsources) | hcondition
  · obtain ⟨a, ha, hleaf⟩ := List.mem_flatMap.mp hattributes
    cases a with
    | star leaf => cases List.mem_singleton.mp hleaf
    | starOf parts leaf =>
      rcases List.mem_append.mp hleaf with hleaf | hleaf
      · exact absurd hleaf hparts
      · cases List.mem_singleton.mp hleaf
    | value e naming =>
      have hexpr := (List.mem_append.mp hleaf).resolve_right hnaming
      exact ⟨e, mem_expressions_of_value ha, e.exists_at?_of_param hexpr⟩
  · -- No source has a parameter.
    obtain ⟨item, -, hleaf⟩ := List.mem_flatMap.mp hsources
    rcases List.mem_append.mp hleaf with hleaf | hleaf
    · exact absurd hleaf hparts
    · exact absurd hleaf hnaming
  · cases hrestriction : s.restriction with
    | none =>
      rw [hrestriction] at hcondition
      cases hcondition
    | some restriction =>
      rw [hrestriction] at hcondition
      have hexpr : (.param, p) ∈ restriction.condition.leaves := by
        rcases List.mem_cons.mp hcondition with heq | hexpr
        · cases heq
        · exact hexpr
      exact ⟨restriction.condition, mem_expressions_of_restriction hrestriction,
        restriction.condition.exists_at?_of_param hexpr⟩

/-! ## Expressions in place of parameters -/

section

variable (f : τ → ρ) (g : τ → Expr ρ)

theorem Expr.operands_graft {e o : Expr τ} {i : Nat} (h : e.operands[i]? = some o) :
    (e.graft f g).operands[i]? = some (o.graft f g) := by
  have hmap : (e.operands.map (Expr.graft f g))[i]? = some (o.graft f g) := by
    rw [List.getElem?_map, h]
    rfl
  cases e with
  | text | number | null | param | name => cases h
  | call function args =>
    rw [Expr.graft, Expr.graftAll_eq_map]
    exact hmap
  | unary | binary => exact hmap

theorem Expr.at?_graft {path : List Nat} {e o : Expr τ} (h : e.at? path = some o) :
    (e.graft f g).at? path = some (o.graft f g) := by
  induction path generalizing e with
  | nil =>
    cases h
    rfl
  | cons i path ih =>
    rw [Expr.at?] at h
    obtain ⟨e', he', hpath⟩ := Option.bind_eq_some_iff.mp h
    exact Expr.at?_cons (operands_graft f g he') (ih hpath)

theorem Statement.mem_expressions_graft {s : Statement τ} {e : Expr τ} (h : e ∈ s.expressions) :
    e.graft f g ∈ (s.graft f g).expressions := by
  rcases List.mem_append.mp h with h | h
  · obtain ⟨a, ha, hvalue⟩ := List.mem_filterMap.mp h
    cases a with
    | star leaf | starOf parts leaf => cases hvalue
    | value value naming =>
      cases hvalue
      have hgraft : Attribute.graft f g (.value e naming) ∈ (s.graft f g).attributes :=
        List.mem_map_of_mem ha
      exact mem_expressions_of_value hgraft
  · obtain ⟨r, hr, rfl⟩ := List.mem_map.mp h
    have hgraft : (s.graft f g).restriction = some (r.graft f g) := by
      rw [Statement.graft, Option.mem_toList.mp hr]
      rfl
    exact mem_expressions_of_restriction hgraft

/-- What is put in place of a parameter stands in one of the expressions. -/
theorem Statement.exists_at?_of_graft {s : Statement τ} {p : τ} (h : (.param, p) ∈ s.leaves) :
    ∃ e ∈ (s.graft f g).expressions, ∃ path, e.at? path = some (g p) := by
  obtain ⟨e, he, path, hpath⟩ := s.exists_at?_of_param h
  exact ⟨e.graft f g, mem_expressions_graft f g he, path, e.at?_graft f g hpath⟩

end

end SelectEngine
