import Mathlib
import SelectEngine.Function.Basic
import SelectEngine.Memory.Catalog
import SelectEngine.Plan.Scope
import SelectEngine.Proofs.Run
import SelectEngine.Text.Ascii

/-!
# Lookups ignore letter case

Two computations end alike if both succeed with related values, or both fail with the same variant
of failure, whatever names the failures carry (`Outcome.Alike`). Sequences keep this.

Every lookup by name reads the name through its fold alone, whichever letter case it folds to: two
names with one fold mean the same function, the same column, the same source and the same table.
-/

set_option autoImplicit false

/-! ## Outcomes that are alike -/

namespace SelectEngine

variable {α β γ δ : Type}

/-- The failures have the same cause, but for the data that words it. -/
def Error.SameVariant (e e' : Error) : Prop := e.ctorIdx = e'.ctorIdx

namespace Outcome

/-- Both outcomes are values in a relation, or both are failures of the same variant. -/
inductive Alike (R : α → β → Prop) : Except Error α → Except Error β → Prop where
  | ok {a : α} {b : β} (h : R a b) : Alike R (.ok a) (.ok b)
  | error {e e' : Error} (h : e.SameVariant e') : Alike R (.error e) (.error e')

variable {R : α → β → Prop} {Q : γ → δ → Prop} {x : Except Error α} {y : Except Error β}

theorem alike_refl (x : Except Error α) : Alike Eq x x := by
  cases x with
  | ok a => exact .ok rfl
  | error e => exact .error rfl

theorem Alike.bind (h : Alike R x y) {f : α → Except Error γ} {g : β → Except Error δ}
    (hf : ∀ a b, R a b → Alike Q (f a) (g b)) : Alike Q (x >>= f) (y >>= g) := by
  cases h with
  | ok hab => exact hf _ _ hab
  | error he => exact .error he

/-- A sequence whose first outcomes are alike goes on from the same value. -/
theorem Alike.bind_eq {x y : Except Error α} (h : Alike Eq x y) {f : α → Except Error γ}
    {g : α → Except Error δ} (hf : ∀ a, Alike Q (f a) (g a)) : Alike Q (x >>= f) (y >>= g) :=
  h.bind fun a _ hab => hab ▸ hf a

theorem Alike.cases (h : Alike R x y) :
    (∃ a b, x = .ok a ∧ y = .ok b ∧ R a b) ∨
      ∃ e e', x = .error e ∧ y = .error e' ∧ e.SameVariant e' := by
  cases h with
  | ok hab => exact Or.inl ⟨_, _, rfl, rfl, hab⟩
  | error he => exact Or.inr ⟨_, _, rfl, rfl, he⟩

/-- Values that were both found are related. -/
theorem Alike.of_ok (h : Alike R x y) {a : α} {b : β} (hx : x = .ok a) (hy : y = .ok b) : R a b := by
  subst hx hy
  cases h with
  | ok hab => exact hab

/-- What holds of images holds of what they are images of. -/
theorem Alike.of_map {f : α → γ} {g : β → δ} (h : Alike Q (x.map f) (y.map g)) :
    Alike (fun a b => Q (f a) (g b)) x y := by
  cases x with
  | ok a =>
    cases y with
    | ok b =>
      cases h with
      | ok hab => exact .ok hab
    | error e' => cases h
  | error e =>
    cases y with
    | ok b => cases h
    | error e' =>
      cases h with
      | error he => exact .error he

end Outcome

open Outcome

/-! ## Equal images -/

/-- Options of one image under `f` are both empty, or are of elements of one image. -/
theorem map_eq_cases {α β : Type} {f : α → β} {o o' : Option α} (h : o.map f = o'.map f) :
    (o = none ∧ o' = none) ∨ ∃ a a', o = some a ∧ o' = some a' ∧ f a = f a' := by
  cases o with
  | none => exact Or.inl ⟨rfl, Option.map_eq_none_iff.mp h.symm⟩
  | some a =>
    obtain ⟨a', ho', ha'⟩ := Option.map_eq_some_iff.mp h.symm
    exact Or.inr ⟨a, a', rfl, ho', ha'.symm⟩

/-- Lists of one image under `f` are related element by element. -/
theorem forall₂_of_map_eq {α β : Type} {f : α → β} {xs ys : List α} (h : xs.map f = ys.map f) :
    List.Forall₂ (fun x y => f x = f y) xs ys := by
  rwa [← List.forall₂_eq_eq_eq, List.forall₂_map_left_iff, List.forall₂_map_right_iff] at h

/-! ## Texts -/

namespace Text

variable {a a' b b' : String}

/-- Texts that are equal in lower case are equal in upper case. -/
theorem raiseCase_congr (h : foldCase a = foldCase a') : raiseCase a = raiseCase a' := by
  have hraise (s : String) : raiseCase s = raiseCase (foldCase s) := by
    rw [raiseCase, raiseCase, foldCase, String.toList_ofList, List.map_map]
    congr 2
    funext c
    exact (Char.toUpper_toLower_eq_toUpper c).symm
  rw [hraise a, hraise a', h]

theorem sameName_congr (ha : foldCase a = foldCase a') (hb : foldCase b = foldCase b') :
    sameName a b = sameName a' b' := by
  rw [sameName, sameName, ha, hb]

end Text

open Text

/-! ## Functions and columns -/

theorem Registry.find?_congr (r : Registry) {name name' : String} (args : Int)
    (h : foldCase name = foldCase name') : r.find? name args = r.find? name' args := by
  have hkey (arity : Int) : hasKey name arity = hasKey name' arity := by
    funext f
    rw [hasKey, hasKey, raiseCase_congr h]
  rw [find?, find?, get?, get?, get?, get?, hkey, hkey]

theorem Registry.forCall?_congr (r : Registry) {name name' : String} (args : Nat)
    (h : foldCase name = foldCase name') : r.forCall? name args = r.forCall? name' args := by
  rw [forCall?, forCall?, find?_congr r args h]

theorem Memory.Table.columnId?_congr (t : Memory.Table) {name name' : String}
    (h : foldCase name = foldCase name') : t.columnId? name = t.columnId? name' := by
  have htest (c : Column) : sameName c.name name = sameName c.name name' := sameName_congr rfl h
  simp only [columnId?, htest]

/-! ## Tables -/

namespace TableName

/-- The name with all its parts in lower case. -/
def folded (n : TableName) : TableName :=
  ⟨n.catalog.map foldCase, n.schema.map foldCase, foldCase n.table⟩

theorem ofParts_congr {parts parts' : List String}
    (h : parts.map foldCase = parts'.map foldCase) :
    (ofParts parts).map folded = (ofParts parts').map folded := by
  have hfold (parts : List String) : (ofParts parts).map folded = ofParts (parts.map foldCase) := by
    rcases parts with _ | ⟨a, _ | ⟨b, _ | ⟨c, _ | ⟨d, rest⟩⟩⟩⟩ <;> rfl
  rw [hfold, hfold, h]

theorem admits_congr {wanted wanted' have_ have' : Option String}
    (hwanted : wanted.map foldCase = wanted'.map foldCase)
    (hhave : have_.map foldCase = have'.map foldCase) :
    admits wanted have_ = admits wanted' have' := by
  obtain ⟨rfl, rfl⟩ | ⟨w, w', rfl, rfl, hw⟩ := map_eq_cases hwanted
  · rfl
  obtain ⟨rfl, rfl⟩ | ⟨a, a', rfl, rfl, ha⟩ := map_eq_cases hhave
  · rfl
  · exact sameName_congr hw ha

theorem means_congr {wanted wanted' have_ have' : TableName} (hwanted : wanted.folded = wanted'.folded)
    (hhave : have_.folded = have'.folded) : wanted.means have_ = wanted'.means have' := by
  obtain ⟨hcatalog, hschema, htable⟩ := TableName.mk.inj hwanted
  obtain ⟨hcatalog', hschema', htable'⟩ := TableName.mk.inj hhave
  rw [means, means, sameName_congr htable' htable, admits_congr hschema hschema',
    admits_congr hcatalog hcatalog']

end TableName

theorem Memory.Catalog.lookup_congr (c : Memory.Catalog) {name name' : TableName}
    (h : name.folded = name'.folded) : c.lookup name = c.lookup name' := by
  have htest (have_ : TableName) : name.means have_ = name'.means have_ :=
    TableName.means_congr h rfl
  simp only [lookup, htest]

/-! ## Sources -/

namespace SourceName

/-- The source with its alias and its table in lower case. -/
def folded (s : SourceName) : SourceName := ⟨foldCase s.aliasName, s.table.folded⟩

theorem findIdx?_congr {p p' : SourceName → Bool}
    (hp : ∀ s s' : SourceName, s.folded = s'.folded → p s = p' s') :
    ∀ {sources sources' : List SourceName}, sources.map folded = sources'.map folded →
      sources.findIdx? p = sources'.findIdx? p'
  | [], [], _ => rfl
  | s :: sources, s' :: sources', h => by
    obtain ⟨hfirst, hrest⟩ := List.cons.inj h
    rw [List.findIdx?_cons, List.findIdx?_cons, hp s s' hfirst, findIdx?_congr hp hrest]

variable {sources sources' : List SourceName}

theorem position?_congr (hsources : sources.map folded = sources'.map folded)
    {aliasName alias' : String} (h : foldCase aliasName = foldCase alias') :
    position? sources aliasName = position? sources' alias' :=
  findIdx?_congr (fun _ _ hs => sameName_congr (SourceName.mk.inj hs).1 h) hsources

/-- A qualifier of one part is an alias. -/
theorem find_alias (sources : List SourceName) (aliasName : String) :
    find sources [aliasName] = (position? sources aliasName).elim
      (.error (.noSuchSource (".".intercalate [aliasName]))) .ok := by
  rw [find]
  cases position? sources aliasName <;> rfl

/-- Any other qualifier is the name of a table. -/
theorem find_table (sources : List SourceName) {qualifier : List String}
    (h : qualifier.length ≠ 1) :
    find sources qualifier = ((TableName.ofParts qualifier).bind fun wanted =>
      sources.findIdx? fun s => wanted.means s.table).elim
        (.error (.noSuchSource (".".intercalate qualifier))) .ok := by
  rcases qualifier with _ | ⟨a, _ | ⟨b, parts⟩⟩
  · rfl
  · exact absurd rfl h
  · unfold find
    dsimp only
    cases (TableName.ofParts (a :: b :: parts)).bind fun wanted =>
      sources.findIdx? fun s => wanted.means s.table <;> rfl

/-- A qualifier means the same source in any letter case. -/
theorem find_congr (hsources : sources.map folded = sources'.map folded)
    {qualifier qualifier' : List String} (h : qualifier.map foldCase = qualifier'.map foldCase) :
    Alike Eq (find sources qualifier) (find sources' qualifier') := by
  -- What a long qualifier means is asked of the tables.
  have htables {wanted wanted' : Option TableName}
      (hwanted : wanted.map TableName.folded = wanted'.map TableName.folded) :
      (wanted.bind fun wanted => sources.findIdx? fun s => wanted.means s.table) =
        wanted'.bind fun wanted => sources'.findIdx? fun s => wanted.means s.table := by
    obtain ⟨rfl, rfl⟩ | ⟨w, w', rfl, rfl, hw⟩ := map_eq_cases hwanted
    · rfl
    · exact findIdx?_congr (fun _ _ hs => TableName.means_congr hw (SourceName.mk.inj hs).2)
        hsources
  have answered {found found' : Option Nat} (shown shown' : String) (hfound : found = found') :
      Alike Eq (found.elim (.error (.noSuchSource shown)) Except.ok)
        (found'.elim (.error (.noSuchSource shown')) Except.ok) := by
    subst hfound
    cases found with
    | some i => exact .ok rfl
    | none => exact .error rfl
  have hlength : qualifier.length = qualifier'.length := by
    simpa using congrArg List.length h
  by_cases hone : qualifier.length = 1
  · obtain ⟨a, rfl⟩ := List.length_eq_one_iff.mp hone
    obtain ⟨a', rfl⟩ := List.length_eq_one_iff.mp (hlength.symm.trans hone)
    rw [find_alias, find_alias]
    exact answered _ _ (position?_congr hsources (List.cons.inj h).1)
  · rw [find_table sources hone, find_table sources' (hlength ▸ hone)]
    exact answered _ _ (htables (TableName.ofParts_congr h))

/-- A source is registered under the same alias, or refused for the same reason. -/
theorem register_congr (hsources : sources.map folded = sources'.map folded)
    {parts parts' : List String} (hparts : parts.map foldCase = parts'.map foldCase)
    {given given' : Option String} (hgiven : given.map foldCase = given'.map foldCase) :
    Alike (fun found found' => found.map folded = found'.map folded)
      (register sources parts given) (register sources' parts' given') := by
  unfold register
  obtain ⟨hnone, hnone'⟩ | ⟨table, table', hfound, hfound', hfolded⟩ :=
    map_eq_cases (TableName.ofParts_congr hparts)
  · rw [hnone, hnone']
    exact .error rfl
  rw [hfound, hfound']
  have halias : foldCase (given.getD table.table) = foldCase (given'.getD table'.table) := by
    obtain ⟨rfl, rfl⟩ | ⟨name, name', rfl, rfl, hname⟩ := map_eq_cases hgiven
    · exact (TableName.mk.inj hfolded).2.2
    · exact hname
  have htaken : (sources.any fun s => sameName s.aliasName (given.getD table.table)) =
      sources'.any fun s => sameName s.aliasName (given'.getD table'.table) := by
    rw [← List.findIdx?_isSome, ← List.findIdx?_isSome]
    exact congrArg Option.isSome (position?_congr hsources halias)
  dsimp only
  rw [htaken]
  split
  · exact .error rfl
  · refine .ok ?_
    rw [List.map_append, List.map_append, hsources]
    simp [folded, halias, hfolded]

end SourceName

end SelectEngine
