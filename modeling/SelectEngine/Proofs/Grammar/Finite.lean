import SelectEngine.Proofs.Automaton.Loops
import SelectEngine.Proofs.Automaton.Parse
import SelectEngine.Proofs.Grammar.Dispatch
import SelectEngine.Proofs.Token.Loops

/-!
# Parsing ends

Parsing is a loop that asks for a token and feeds it to the automaton until the statement is
accepted or something fails, and reading a statement with the stages of the grammar is such a loop
as well. Nothing in the loops counts: past the end of the text there is always one more `eof` token.
They end because every other token takes some of the text, while nothing ever waits for more behind
`eof` (`Parsing.measured_turn`, `Reading.measured_turn`). The loops inside a turn end too, those of
the tokenizer at every place, those of the automaton whatever it holds and those of the grammar for
every state and kind of token, and so parsing ends for every text and all settings (`parse_ends`).
-/

set_option autoImplicit false

namespace SelectEngine

/-- How far a statement has been read: the place in the text, the stage and the tokens. -/
structure Reading where
  scan : Scan
  stage : Grammar.Stage TokenId
  tokens : Array Token

namespace Reading

/-- Nothing of a text has been read. -/
def start (text : String) : Reading := ⟨Scan.ofText text, .start, #[]⟩

/-- One turn: a token is read and fed to the grammar. -/
def turn (source : String) (r : Reading) :
    Loop.Turn Reading (Except Error (Statement TokenId × Array Token)) :=
  match r.scan.next source with
  | (.error e, _) => .done (.error e)
  | (.ok t, past) =>
    match r.stage.feed t.kind r.tokens.size with
    | none => .done (.error (t.refusal source))
    | some (.accepted statement) => .done (.ok (statement, r.tokens.push t))
    | some (.more stage) => .again ⟨past, stage, r.tokens.push t⟩

theorem measured_turn (source : String) :
    Loop.Measured (turn source) (fun r => r.scan.rest.length)
      (fun r => readStatement source r.scan r.stage r.tokens) := by
  rintro ⟨s, stage, tokens⟩
  dsimp only
  fun_cases readStatement source s stage tokens with
  | case1 e past h =>
    simp only [turn, h]
    exact rfl
  | case2 t past h hfeed =>
    simp only [turn, h, hfeed]
    exact rfl
  | case3 t past h statement hfeed =>
    simp only [turn, h, hfeed]
    exact rfl
  | case4 t past h later hfeed heof =>
    rw [heof] at hfeed
    exact absurd hfeed (stage.feed_eof_ne_more later _)
  | case5 t past h later hfeed hne hshorter =>
    simp only [turn, h, hfeed]
    exact ⟨hshorter, rfl⟩

/-- The loop of reading ends for every text. -/
theorem turn_ends (source text : String) :
    Loop.EndsWithin (turn source) (text.length + 1) (.start text)
      (readStatement source (Scan.ofText text) .start #[]) := by
  have hends := (measured_turn source).ends (.start text)
  have hlength : (start text).scan.rest.length = text.length := text.length_toList
  rwa [hlength] at hends

end Reading

/-- The loops inside the grammar end for a token, and the end of the text never leaves it waiting
for more. -/
structure Grammar.Dispatches (kind : TokenKind) (leaf : TokenId) : Prop where
  reduction : ∀ (least : Nat) (operand : Expr TokenId) (stack : List (Pending TokenId)),
    Loop.EndsWithin (reduceTurn least) (stack.length + 1) (operand, stack)
      (reduce least operand stack)
  expression : ∀ s : State TokenId,
    Loop.EndsWithin (State.turn kind leaf) 2 s (s.feed kind leaf)
  statement : ∀ station : Station TokenId,
    Loop.EndsWithin (Station.turn kind leaf) 4 station (station.feed kind leaf)
  atEnd : kind = .eof → ∀ stage later : Stage TokenId, stage.feed kind leaf ≠ some (.more later)

theorem Grammar.dispatches (kind : TokenKind) (leaf : TokenId) : Dispatches kind leaf where
  reduction least operand stack := (measured_reduceTurn least).ends (operand, stack)
  expression := State.turn_ends kind leaf
  statement := Station.turn_ends kind leaf
  atEnd := by
    rintro rfl stage later
    exact stage.feed_eof_ne_more later leaf

/-- Parsing ends for every text and all settings, and answers with what its loop finds, unless the
text is too long; reading with the stages of the grammar ends as well, with the statement whose tree
that is. Every turn of either loop but the last takes some of the text, and the loops inside a turn
end wherever the tokenizer, the automaton and the stages are. -/
theorem parse_ends (settings : ReadSettings) (text : String) :
    (∃ result,
      Loop.EndsWithin (Parsing.turn settings.sourceName) (text.length + 1)
        (.start settings.sourceName text) result ∧
      parse settings text =
        if settings.maxLength < text.utf8ByteSize then
          .error (.tooLong text.utf8ByteSize settings.maxLength)
        else result) ∧
    (∃ result,
      Loop.EndsWithin (Reading.turn settings.sourceName) (text.length + 1) (.start text) result ∧
      parse settings text =
        if settings.maxLength < text.utf8ByteSize then
          .error (.tooLong text.utf8ByteSize settings.maxLength)
        else result.map fun (statement, tokens) =>
          Tree.ofStatement settings.sourceName tokens statement) ∧
    (∀ s : Scan, s.LoopsEnd settings.sourceName) ∧
    (∀ fed, Automaton.Dispatches fed) ∧
    ∀ kind leaf, Grammar.Dispatches kind leaf :=
  ⟨⟨_, Parsing.turn_ends settings.sourceName text, rfl⟩,
    ⟨_, Reading.turn_ends settings.sourceName text, parse_eq settings text⟩,
    Scan.loops_end settings.sourceName, Automaton.dispatches, Grammar.dispatches⟩

end SelectEngine
