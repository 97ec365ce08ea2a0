import SelectEngine.Text.Ascii

/-!
# Names of tables

A table is named by itself, by its schema and itself, or by catalog, schema and itself. Names are
written with points between the parts and ordered by catalog, then schema, then table, an absent
part before any present one.
-/

set_option autoImplicit false

namespace SelectEngine

/-- The name of a table with the qualifiers that are given. -/
structure TableName where
  catalog : Option String
  schema : Option String
  table : String
deriving DecidableEq

namespace TableName

/-- The name of one to three parts, outermost first. -/
def ofParts : List String → Option TableName
  | [table] => some ⟨none, none, table⟩
  | [schema, table] => some ⟨none, some schema, table⟩
  | [catalog, schema, table] => some ⟨some catalog, some schema, table⟩
  | _ => none

/-- The parts of a name, outermost first. -/
def parts (n : TableName) : List String :=
  n.catalog.toList ++ n.schema.toList ++ [n.table]

/-- The name with points between its parts. -/
def text (n : TableName) : String := ".".intercalate n.parts

/-- The order of two qualifiers. -/
def compareQualifier : Option String → Option String → Ordering
  | none, none => .eq
  | none, some _ => .lt
  | some _, none => .gt
  | some a, some b => compare a b

/-- The order of names. -/
def order (a b : TableName) : Ordering :=
  (compareQualifier a.catalog b.catalog).then
    ((compareQualifier a.schema b.schema).then (compare a.table b.table))

/-- A wanted qualifier admits the one at hand: it is not given, or the same up to letter case. -/
def admits : Option String → Option String → Bool
  | none, _ => true
  | some wanted, some have_ => Text.sameName wanted have_
  | some _, none => false

/-- The wanted name means the one at hand: the tables agree and every given qualifier does. -/
def means (wanted have_ : TableName) : Bool :=
  Text.sameName have_.table wanted.table && admits wanted.schema have_.schema &&
    admits wanted.catalog have_.catalog

end TableName

end SelectEngine
