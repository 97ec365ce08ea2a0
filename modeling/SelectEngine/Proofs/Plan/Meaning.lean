import SelectEngine.Proofs.Answer
import SelectEngine.Proofs.Memory.Prepare
import SelectEngine.Proofs.Ordinary.Binding
import SelectEngine.Proofs.Plan.Params

/-!
# What a statement means

Binding walks over a tree with the names and calls that it has found as its state. What it finds can
be said of the statement alone, without the tree, its nodes and that state: every expression is
bound by recursion on it (`Expr.bind`), every attribute gives its columns (`Attribute.outputs`), and
a statement gives sources, columns and a condition, or the first failure on the way
(`Statement.meaning`). The plan of a tree means what the statement means that the tree holds
(`Plan.meaning_ofTree`).
-/

set_option autoImplicit false

namespace SelectEngine

open Memory

variable {τ : Type}

/-! ## Plans without their trees -/

/-- A column of the result: its descriptor, and the expression whose value it has. -/
structure Output where
  column : Column
  expression : Bound

/-- What a plan makes of the rows of its sources. -/
structure Meaning where
  sources : List SourceName
  outputs : List Output
  condition : Option Bound

/-- The expression whose value a field has. -/
def Field.expression (f : Field) : Bound :=
  match f.kind with
  | .static v => .literal (.ok v)
  | .param ordinal => .param ordinal
  | .data ref => .column ref
  | .computed _ e => e

theorem Field.eval_expression (f : Field) (env : Environment (Except Error)) :
    f.eval env = f.expression.eval env 0 := by
  obtain ⟨name, type, kind, column, hname, htype⟩ := f
  cases kind <;> rfl

def Field.output (f : Field) : Output := ⟨f.column, f.expression⟩

def Plan.meaning (p : Plan) : Meaning :=
  ⟨p.sources, p.fields.map Field.output, p.predicate.map Prod.snd⟩

/-! ## Binding a statement -/

/-- What a statement is bound against: the words that its leaves stand for, the numbers of its
parameters, the names in scope and the functions, under a limit of depth. -/
structure Binder (τ : Type) where
  word : τ → String
  ordinal : τ → Nat
  scope : Scope (Except Error)
  registry : Registry
  maxDepth : Nat

namespace Binder

variable (β : Binder τ)

def column (parts : List τ) : Except Error ColumnRef := β.scope.column (parts.map β.word)

def function (name : τ) (args : Nat) : Except Error Function :=
  match β.registry.forCall? (β.word name) args with
  | some f => .ok f
  | none => .error (.noSuchFunction (β.word name) args)

def guardDepth (depth : Nat) : Except Error Unit :=
  if β.maxDepth ≤ depth then .error (.tooDeep β.maxDepth) else .ok ()

end Binder

mutual

/-- The expression with `depth` operators and calls around it. -/
def Expr.bind (β : Binder τ) (depth : Nat) : Expr τ → Except Error Bound
  | .text leaf => .ok (.literal (.ok (.text (β.word leaf))))
  | .number leaf => .ok (.literal (Value.ofNumeral (β.word leaf)))
  | .null _ => .ok (.literal (.ok .null))
  | .param leaf => .ok (.param (β.ordinal leaf))
  | .name parts => do
    let ref ← β.column parts
    .ok (.column ref)
  | .call function args => do
    let f ← β.function function args.length
    β.guardDepth depth
    let es ← Expr.bindAll β (depth + 1) args
    .ok (.call f es)
  | .unary op operand => do
    β.guardDepth depth
    let e ← operand.bind β (depth + 1)
    .ok (.operation op [e])
  | .binary op left right => do
    β.guardDepth depth
    let l ← left.bind β (depth + 1)
    let r ← right.bind β (depth + 1)
    .ok (.operation op [l, r])

def Expr.bindAll (β : Binder τ) (depth : Nat) : List (Expr τ) → Except Error (List Bound)
  | [] => .ok []
  | e :: es => do
    let b ← e.bind β depth
    let bs ← Expr.bindAll β depth es
    .ok (b :: bs)

end

/-- A whole expression and the type of its value. -/
def Expr.typed (β : Binder τ) (e : Expr τ) : Except Error (Bound × DataType) := do
  let b ← e.bind β 0
  let t ← b.type
  .ok (b, t)

/-- The condition of a WHERE clause, which is a truth or of a type that is not known. -/
def Expr.condition (β : Binder τ) (e : Expr τ) : Except Error Bound := do
  let found ← e.typed β
  if found.2 = .null ∨ found.2 = .boolean then .ok found.1
  else .error (.typeMismatch "BOOLEAN predicate" found.2.name)

/-- The name of the `n`th column that has none of its own. These columns are counted in 32 bits. -/
def Settings.generatedName (settings : Settings) (n : Nat) : String :=
  settings.anonymousName (n % 2 ^ 32)

theorem Settings.generatedName_of_lt (settings : Settings) {n : Nat} (h : n < 2 ^ 32) :
    settings.generatedName n = settings.anonymousName n := by
  rw [generatedName, Nat.mod_eq_of_lt h]

namespace Output

/-- A column that is always the same value. -/
def static (v : Value) (name : String) : Output := (Field.static name v).output

def param (ordinal : Nat) (name : String) : Output := (Field.param name ordinal).output

/-- A column of a source, under the name given to it or its own. -/
def data (given : Option String) (ref : ColumnRef) : Output :=
  ⟨given.elim ref.column ref.column.rename, .column ref⟩

/-- A column that is neither a column of a source nor a star, under the name given to it or the next
generated one. With it comes the number of names generated so far. -/
def named (settings : Settings) (given : Option String) (generated : Nat)
    (output : String → Output) : List Output × Nat :=
  match given with
  | some name => ([output name], generated)
  | none => ([output (settings.generatedName (generated + 1))], generated + 1)

end Output

/-- The columns of an attribute that is an expression. -/
def Expr.outputs (β : Binder τ) (settings : Settings) (given : Option String) (generated : Nat)
    (e : Expr τ) : Except Error (List Output × Nat) :=
  match e with
  | .text leaf =>
    .ok (Output.named settings given generated (Output.static (.text (β.word leaf))))
  | .number leaf => do
    let v ← Value.ofNumeral (β.word leaf)
    .ok (Output.named settings given generated (Output.static v))
  | .null _ => .ok (Output.named settings given generated (Output.static .null))
  | .param leaf => .ok (Output.named settings given generated (Output.param (β.ordinal leaf)))
  | .name parts => do
    let ref ← β.column parts
    .ok ([Output.data given ref], generated)
  | e => do
    let found ← e.typed β
    .ok (Output.named settings given generated fun name =>
      ⟨Column.ofType name found.2, found.1⟩)

/-- The columns of an attribute. -/
def Attribute.outputs (β : Binder τ) (settings : Settings) (generated : Nat) :
    Attribute τ → Except Error (List Output × Nat)
  | star _ => do
    let refs ← β.scope.columnsOfAll (List.range β.scope.sources.length)
    .ok (refs.map (Output.data none), generated)
  | starOf parts _ => do
    let source ← SourceName.find β.scope.sources (parts.map β.word)
    let refs ← β.scope.columnsOf source
    .ok (refs.map (Output.data none), generated)
  | value e naming => e.outputs β settings (naming.map fun n => β.word n.name) generated

/-- The columns of several attributes in order. -/
def Attribute.outputsAll (β : Binder τ) (settings : Settings) (generated : Nat) :
    List (Attribute τ) → Except Error (List Output × Nat)
  | [] => .ok ([], generated)
  | a :: as => do
    let found ← a.outputs β settings generated
    let more ← Attribute.outputsAll β settings found.2 as
    .ok (found.1 ++ more.1, more.2)

/-- Puts a source behind those before it. -/
def FromItem.register (word : τ → String) (sources : List SourceName) (s : FromItem τ) :
    Except Error (List SourceName) :=
  SourceName.register sources (s.parts.map word) (s.naming.map fun n => word n.name)

namespace Statement

/-- What the parts of a statement are bound against once its sources are known. -/
def binder [DecidableEq τ] (s : Statement τ) (word : τ → String) (names : List SourceName)
    (tables : List Table) (registry : Registry) (settings : Settings) : Binder τ where
  word
  ordinal leaf := s.params.idxOf leaf + 1
  scope := .ofTables names tables
  registry
  maxDepth := settings.maxDepth

/-- What the SELECT list and the WHERE clause of a statement mean, or their first failure. -/
def meaningOver (β : Binder τ) (names : List SourceName) (settings : Settings) (s : Statement τ) :
    Except Error Meaning := do
  let found ← Attribute.outputsAll β settings 0 s.attributes
  match s.restriction with
  | none => .ok ⟨names, found.1, none⟩
  | some r => do
    let condition ← r.condition.condition β
    .ok ⟨names, found.1, some condition⟩

/-- What a statement means over the tables of a catalog, or its first failure. -/
def meaning [DecidableEq τ] (word : τ → String) (catalog : Catalog) (registry : Registry)
    (settings : Settings) (s : Statement τ) : Except Error Meaning := do
  let names ← s.sources.foldlM (FromItem.register word) []
  let tables ← tablesNamed catalog names
  s.meaningOver (s.binder word names tables registry settings) names settings

end Statement

end SelectEngine
