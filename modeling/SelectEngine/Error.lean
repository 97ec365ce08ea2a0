/-!
# Failures

A failure of any stage is one value of `Error`: a cause with the data that its wording needs.
`Error.message` words it, `Error.category` sorts it into one of six buckets, and
`Error.recoverable` and `Error.suggestion` say what the writer of the statement can do about it.
-/

set_option autoImplicit false

namespace SelectEngine

/-- Where in the text of a statement a failure was noticed. Offset and length count bytes, lines
count from one. -/
structure Location where
  source : String
  line : Nat
  offset : Nat
  length : Nat
deriving DecidableEq

/-- The wording of a location inside a message. -/
def Location.text (l : Location) : String :=
  s!"{l.source} line {l.line}, offset {l.offset}"

/-- The cause of a failure. -/
inductive Error where
  /-- A character that starts no token. -/
  | invalidCharacter (char : Char) (location : Location)
  /-- A quoted run or a comment that reaches the end of the text. -/
  | unterminated (what : String) (location : Location)
  /-- A statement longer than the limit, both in bytes. -/
  | tooLong (length max : Nat)
  /-- A token that no sentence of the grammar has at this place. -/
  | unexpected (token : String) (location : Location)
  /-- Two sources under one alias. -/
  | duplicateAlias (aliasName : String)
  | noSuchTable (name : String)
  | noSuchColumn (name : String)
  /-- A qualifier that no source answers to. -/
  | noSuchSource (aliasName : String)
  /-- An unqualified column that several sources have. -/
  | ambiguousColumn (name : String)
  /-- No function of this name takes this many arguments. -/
  | noSuchFunction (name : String) (args : Nat)
  /-- An operation that the cursor refuses in its present state. -/
  | cursorState (operation state : String)
  | columnOutOfRange (index count : Nat)
  /-- A value or a type where another is needed. -/
  | typeMismatch (expected actual : String)
  /-- A null operand under strict null handling. -/
  | nullValue (operation : String)
  | divisionByZero
  | integerOverflow
  /-- An expression nested deeper than the limit. -/
  | tooDeep (max : Nat)
  | notImplemented (feature : String)
  /-- A failure that a data provider reports. -/
  | provider (message : String)
  /-- An attempt to open a data source for writing. -/
  | readOnly
  /-- A state that no statement leads to. -/
  | internal (message : String)
deriving DecidableEq

/-- The buckets of failures. -/
inductive Category where
  | lexical
  | grammatical
  | binder
  | runtime
  | provider
  | internal
deriving DecidableEq

/-- The label of a bucket in diagnostics. -/
def Category.label : Category → String
  | .lexical => "lexical"
  | .grammatical => "syntax"
  | .binder => "binder"
  | .runtime => "runtime"
  | .provider => "provider"
  | .internal => "internal"

namespace Error

/-- The wording of a failure. -/
def message : Error → String
  | invalidCharacter c l => s!"invalid character '{c}' at {l.text}"
  | unterminated what l => s!"unterminated {what} starting at {l.text}"
  | tooLong length max => s!"SQL statement too long: {length} bytes (max {max})"
  | unexpected token l => s!"near \"{token}\": syntax error at {l.text}"
  | duplicateAlias name => s!"duplicate source alias: {name}"
  | noSuchTable name => s!"no such table: {name}"
  | noSuchColumn name => s!"no such column: {name}"
  | noSuchSource name => s!"no such source alias: {name}"
  | ambiguousColumn name => s!"ambiguous column name: {name}"
  | noSuchFunction name args => s!"no such function: {name}/{args}"
  | cursorState operation state => s!"cannot {operation} while cursor is {state}"
  | columnOutOfRange index count => s!"column index {index} out of range ({count} columns)"
  | typeMismatch expected actual => s!"type mismatch: expected {expected}, got {actual}"
  | nullValue operation => s!"null value in {operation}"
  | divisionByZero => "division by zero"
  | integerOverflow => "integer overflow"
  | tooDeep max => s!"expression tree too deep (max {max})"
  | notImplemented feature => s!"not implemented: {feature}"
  | provider m => s!"data provider error: {m}"
  | readOnly => "attempt to write a read-only data source"
  | internal m => s!"internal error: {m}"

/-- The bucket of a failure. -/
def category : Error → Category
  | invalidCharacter .. | unterminated .. | tooLong .. => .lexical
  | unexpected .. => .grammatical
  | duplicateAlias .. | noSuchTable .. | noSuchColumn .. | noSuchSource .. | ambiguousColumn ..
  | noSuchFunction .. => .binder
  | cursorState .. | columnOutOfRange .. | typeMismatch .. | nullValue .. | divisionByZero
  | integerOverflow | tooDeep .. | notImplemented .. => .runtime
  | provider .. | readOnly => .provider
  | internal .. => .internal

/-- Whether another wording of the statement can avoid the failure. -/
def recoverable (e : Error) : Bool :=
  match e.category with
  | .lexical | .grammatical | .binder => true
  | _ =>
    match e with
    | typeMismatch .. | divisionByZero => true
    | _ => false

/-- Advice on how to avoid the failure. -/
def suggestion : Error → Option String
  | duplicateAlias .. => some "Give each FROM source a distinct alias with AS"
  | ambiguousColumn .. => some "Qualify the column with its source alias"
  | noSuchSource .. => some "Use an alias declared in the FROM clause"
  | nullValue .. => some "Enable null propagation or filter null rows with IS NOT NULL"
  | cursorState .. => some "Call execute() and first() before reading rows"
  | notImplemented .. => some "This feature is not available in vsql"
  | _ => none

/-- The place in the text, for failures of reading it. -/
def location? : Error → Option Location
  | invalidCharacter _ l | unterminated _ l | unexpected _ l => some l
  | _ => none

end Error

/-- Fails where the outcome is a failure. -/
def relay {m : Type → Type} {α : Type} [Monad m] [MonadExceptOf Error m] : Except Error α → m α
  | .ok a => pure a
  | .error e => throw e

end SelectEngine
