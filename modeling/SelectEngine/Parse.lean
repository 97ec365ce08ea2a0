import SelectEngine.Automaton.Statement
import SelectEngine.Token.Scan

/-!
# From text to tree

`parse` refuses a text that is too long, and otherwise feeds it token by token to the automaton,
which grows the tree. A token that cannot be read or that the grammar does not have at its place
ends the reading at once, so that the first fault of a text is the one that is reported.
-/

set_option autoImplicit false

namespace SelectEngine

/-- How statements are read. -/
structure ReadSettings where
  /-- The name of the source in messages. -/
  sourceName : String
  /-- The greatest length of a statement in bytes. -/
  maxLength : Nat
deriving DecidableEq

namespace ReadSettings

/-- The settings where none are given. -/
def default : ReadSettings := ⟨"<sql>", 1000000⟩

/-- The settings with another limit, which may not be zero. -/
def withMaxLength (s : ReadSettings) (max : Nat) : Option ReadSettings :=
  if max = 0 then none else some { s with maxLength := max }

end ReadSettings

/-- Reads tokens until the statement is accepted, and answers with the tree that has then grown. -/
def readTree (source : String) (s : Scan) (a : Automaton) (t : Tree) : Except Error Tree :=
  match h : s.next source with
  | (.error e, _) => .error e
  | (.ok token, past) =>
    let (t, id) := t.addToken token
    match hfed : a.feed ⟨token, id, source⟩ t with
    | .error e => .error e
    | .ok ((.accepted, _), t) => .ok t
    | .ok ((.more, later), t) =>
      have : past.rest.length < s.rest.length :=
        Scan.next_shorter h (Automaton.ne_eof_of_more hfed)
      readTree source past later t
termination_by s.rest.length

/-- The tree of a statement. -/
def parse (settings : ReadSettings) (text : String) : Except Error Tree :=
  if settings.maxLength < text.utf8ByteSize then
    .error (.tooLong text.utf8ByteSize settings.maxLength)
  else
    readTree settings.sourceName (Scan.ofText text) .initial (.ofTokens settings.sourceName #[])

end SelectEngine
