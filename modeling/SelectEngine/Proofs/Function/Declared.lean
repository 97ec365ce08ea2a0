import SelectEngine.Function.Builtin
import SelectEngine.Proofs.Alike.Names

/-!
# The function that is declared for a call

`Registry.Declared fs name args found` says which of the functions `fs`, registered one after the
other, a call of `name` with so many arguments means: the last one under the name and that number,
or else the last one for any number, if it takes so few. A registry finds that one
(`Registry.declared_find?`), so that it never hands out a function for a number of arguments that
the function does not admit; and a builtin looks at no argument beyond such a number
(`Function.withinArguments_of_mem_builtins`).
-/

set_option autoImplicit false

namespace SelectEngine

/-! ## Names up to letter case -/

/-- Upper case and lower case tell the same texts apart. -/
theorem Text.sameName_iff_raiseCase (a b : String) :
    sameName a b = true ↔ raiseCase a = raiseCase b := by
  rw [sameName_iff]
  refine ⟨raiseCase_congr, fun h => ?_⟩
  have hfold (s : String) : foldCase s = foldCase (raiseCase s) := by
    rw [foldCase, foldCase, raiseCase, String.toList_ofList, List.map_map]
    congr 2
    funext c
    exact (Char.toLower_toUpper_eq_toLower c).symm
  rw [hfold a, hfold b, h]

namespace Function

/-- The function is registered under a name, up to letter case, and a number of arguments. -/
def Registered (name : String) (arity : Int) (f : Function) : Prop :=
  Text.sameName f.name name = true ∧ f.arity = arity

/-- The function is the last of several with a property. -/
def IsLast (p : Function → Prop) (fs : List Function) (f : Function) : Prop :=
  ∃ earlier later, fs = earlier ++ f :: later ∧ p f ∧ ∀ g ∈ later, ¬p g

/-- The function may be called with so many arguments. -/
def Admits (f : Function) (args : Nat) : Prop := f.arity = args ∨ f.arity = -1 ∧ f.minArgs ≤ args

end Function

namespace Registry

open SelectEngine.Function

variable {fs : List Function} {f g : Function} {name : String} {args : Nat} {arity : Int}

/-- What a call with so many arguments means where the functions `fs` are registered one after the
other. -/
inductive Declared (fs : List Function) (name : String) (args : Nat) : Option Function → Prop
  | exact {f : Function} (h : IsLast (Registered name args) fs f) : Declared fs name args (some f)
  | variadic {f : Function} (hnone : ∀ g ∈ fs, ¬Registered name args g)
      (h : IsLast (Registered name (-1)) fs f) (hargs : f.minArgs ≤ args) :
      Declared fs name args (some f)
  | missing (hnone : ∀ g ∈ fs, ¬Registered name args g)
      (hfew : ∀ f, IsLast (Registered name (-1)) fs f → args < f.minArgs) :
      Declared fs name args none

theorem hasKey_iff : hasKey name arity f = true ↔ Registered name arity f := by
  rw [hasKey, Bool.and_eq_true, beq_iff_eq, beq_iff_eq, Registered, Text.sameName_iff_raiseCase]

theorem ofList_concat (fs : List Function) (f : Function) :
    ofList (fs ++ [f]) = (ofList fs).register f := by
  simp [ofList]

/-- The functions of a registry are found from the last one registered on. -/
theorem get?_ofList (fs : List Function) (name : String) (arity : Int) :
    (ofList fs).get? name arity = fs.reverse.find? (hasKey name arity) := by
  induction fs using List.reverseRecOn with
  | nil => rfl
  | append_singleton fs f ih =>
    rw [ofList_concat, get?_register, ih, List.reverse_append, List.reverse_singleton,
      List.singleton_append, List.find?_cons]
    cases hasKey name arity f <;> rfl

theorem get?_ofList_eq_some :
    (ofList fs).get? name arity = some f ↔ IsLast (Registered name arity) fs f := by
  rw [get?_ofList, List.find?_eq_some_iff_append, hasKey_iff]
  constructor
  · rintro ⟨hf, front, back, hreverse, hfront⟩
    refine ⟨back.reverse, front.reverse, ?_, hf, fun g hg hunder => ?_⟩
    · rw [← List.reverse_reverse fs, hreverse]
      simp
    · have hnot := hfront g (List.mem_reverse.mp hg)
      rw [hasKey_iff.mpr hunder] at hnot
      cases hnot
  · rintro ⟨earlier, later, rfl, hf, hlater⟩
    refine ⟨hf, later.reverse, earlier.reverse, by simp, fun g hg => ?_⟩
    rw [Bool.not_eq_true', Bool.eq_false_iff]
    exact fun hkey => hlater g (List.mem_reverse.mp hg) (hasKey_iff.mp hkey)

theorem get?_ofList_eq_none :
    (ofList fs).get? name arity = none ↔ ∀ g ∈ fs, ¬Registered name arity g := by
  rw [get?_ofList, List.find?_eq_none]
  simp only [List.mem_reverse, hasKey_iff]

theorem filter_minArgs (f : Function) (args : Nat) :
    (some f).filter (fun f => decide ((f.minArgs : Int) ≤ args)) =
      if f.minArgs ≤ args then some f else none := by
  simp [Option.filter_some]

/-- The registry finds the function that is declared, and nothing where none is. -/
theorem declared_find? (fs : List Function) (name : String) (args : Nat) :
    Declared fs name args ((ofList fs).find? name args) := by
  unfold find?
  -- A function for the very number comes first, and one for any number is asked whether so few do.
  cases hexact : (ofList fs).get? name args with
  | some f => exact .exact (get?_ofList_eq_some.mp hexact)
  | none =>
    have hnone := get?_ofList_eq_none.mp hexact
    cases hvariadic : (ofList fs).get? name (-1) with
    | none =>
      refine .missing hnone fun f hf => ?_
      rw [get?_ofList_eq_some.mpr hf] at hvariadic
      cases hvariadic
    | some f =>
      dsimp only
      rw [filter_minArgs]
      split
      · next hargs => exact .variadic hnone (get?_ofList_eq_some.mp hvariadic) hargs
      · next hargs =>
        refine .missing hnone fun g hg => ?_
        rw [get?_ofList_eq_some.mpr hg] at hvariadic
        cases hvariadic
        exact Nat.lt_of_not_le hargs

/-- A call means one thing. -/
theorem Declared.eq_find? {found : Option Function} (h : Declared fs name args found) :
    found = (ofList fs).find? name args := by
  unfold find?
  cases h with
  | exact h => rw [get?_ofList_eq_some.mpr h]
  | variadic hnone h hargs =>
    rw [get?_ofList_eq_none.mpr hnone, get?_ofList_eq_some.mpr h]
    dsimp only
    rw [filter_minArgs, if_pos hargs]
  | missing hnone hfew =>
    rw [get?_ofList_eq_none.mpr hnone]
    cases hvariadic : (ofList fs).get? name (-1) with
    | none => rfl
    | some f =>
      have hlt := hfew f (get?_ofList_eq_some.mp hvariadic)
      dsimp only
      rw [filter_minArgs, if_neg (Nat.not_le_of_lt hlt)]

/-- What is declared for a number of arguments admits that number. -/
theorem Declared.admits (h : Declared fs name args (some f)) : f.Admits args := by
  cases h with
  | exact h =>
    obtain ⟨-, -, -, hunder, -⟩ := h
    exact Or.inl hunder.2
  | variadic hnone h hargs =>
    obtain ⟨-, -, -, hunder, -⟩ := h
    exact Or.inr ⟨hunder.2, hargs⟩

/-- One more function changes nothing but the calls that are made for it. -/
theorem find?_register {r : Registry} (hkey : ¬Registered name args g) (harity : g.arity ≠ -1) :
    (r.register g).find? name args = r.find? name args := by
  have hvariadic : ¬Registered name (-1) g := fun h => harity h.2
  rw [find?, find?, get?_register, get?_register, if_neg (hasKey_iff.not.mpr hkey),
    if_neg (hasKey_iff.not.mpr hvariadic)]

theorem forCall?_register {r : Registry} (hkey : ¬Registered name args g) (harity : g.arity ≠ -1) :
    (r.register g).forCall? name args = r.forCall? name args := by
  rw [forCall?, forCall?, find?_register hkey harity]

end Registry

/-! ## What the builtins look at -/

namespace Function

/-- The function looks at its first `k` arguments and at no others. -/
def LooksAt (f : Function) (k : Nat) : Prop :=
  ∀ args, f.invoke args = f.invoke ((List.range k).map fun i => args.getD i .null)

/-- The function looks at none but the first so many arguments, or goes over those it is given. -/
def WithinArguments (f : Function) (args : Nat) : Prop :=
  (∃ k ≤ args, f.LooksAt k) ∨ ∀ values, f.invoke values = .ok (firstValue values)

theorem argument_eq_getD (args : List Value) : argument args = args.getD 0 .null := by
  cases args <;> rfl

theorem looksAt_one {f : Function}
    (h : ∀ args args', argument args = argument args' → f.invoke args = f.invoke args') :
    f.LooksAt 1 :=
  fun args => h args _ (argument_eq_getD args)

theorem looksAt_ofText (name : String) (onText : String → String) :
    (ofText name onText).LooksAt 1 :=
  looksAt_one fun args args' h => by simp only [ofText, h]

theorem looksAt_length : length.LooksAt 1 :=
  looksAt_one fun args args' h => by simp only [length, h]

theorem looksAt_abs : abs.LooksAt 1 :=
  looksAt_one fun args args' h => by simp only [abs, h]

theorem looksAt_typeof : typeof.LooksAt 1 :=
  looksAt_one fun args args' h => by simp only [typeof, h]

theorem looksAt_nullif : nullif.LooksAt 2
  | [] | [_] | _ :: _ :: _ => rfl

/-- A builtin that is called with a number of arguments that it admits finds all that it looks
at. -/
theorem withinArguments_of_mem_builtins {f : Function} {args : Nat} (hf : f ∈ builtins)
    (h : f.Admits args) : f.WithinArguments args := by
  -- A builtin for a number of its own admits that number alone.
  have hexact {k : Nat} (harity : f.arity = k) (hlooks : f.LooksAt k) : f.WithinArguments args := by
    refine Or.inl ⟨k, ?_, hlooks⟩
    rcases h with h | ⟨h, -⟩ <;> omega
  simp only [builtins, List.mem_cons, List.not_mem_nil, or_false] at hf
  rcases hf with rfl | rfl | rfl | rfl | rfl | rfl | rfl | rfl
  · exact hexact rfl (looksAt_ofText _ _)
  · exact hexact rfl (looksAt_ofText _ _)
  · exact hexact rfl looksAt_length
  · exact hexact rfl looksAt_abs
  · exact Or.inr fun _ => rfl
  · exact Or.inr fun _ => rfl
  · exact hexact rfl looksAt_nullif
  · exact hexact rfl looksAt_typeof

end Function

end SelectEngine
