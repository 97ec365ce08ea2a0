import SelectEngine.Token.Scan

/-!
# Tokens on demand

A `Reader` hands out the tokens of a text one at a time. It ends with the `eof` token or with the
first failure; whoever asks on gets nothing.
-/

set_option autoImplicit false

namespace SelectEngine

/-- A place in the text, and whether the last token or a failure has been handed out. -/
structure Reader where
  scan : Scan
  finished : Bool

namespace Reader

/-- The reader at the start of a text. -/
def ofText (text : String) : Reader := ⟨Scan.ofText text, false⟩

/-- The next token or failure, if one is left. -/
def next? (source : String) (r : Reader) : Option (Except Error Token) × Reader :=
  if r.finished then (none, r)
  else
    match r.scan.next source with
    | (.ok t, past) => (some (.ok t), ⟨past, t.kind == .eof⟩)
    | (.error e, past) => (some (.error e), ⟨past, true⟩)

/-- The reader after `n` calls. -/
def after (source : String) : Nat → Reader → Reader
  | 0, r => r
  | n + 1, r => after source n (r.next? source).2

end Reader

end SelectEngine
