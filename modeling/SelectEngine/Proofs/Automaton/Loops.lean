import SelectEngine.Parse
import SelectEngine.Proofs.Loop

/-!
# The loops of the automaton end

A builder and the automaton look at a token turn by turn until it is consumed or refused, and a
builder applies its open operators one by one. None of these loops counts its turns. They end for
every builder, automaton and tree, whether a text leads there or not: a token is only passed on to a
later state, and an operator that is applied is open no longer (`Automaton.dispatches`).
-/

set_option autoImplicit false

namespace SelectEngine

namespace Automaton

/-- One turn of applying the open operators that bind at least as tightly as `least`. -/
def reduceTurn (least : Nat) :
    (List Pending × List NodeId) × Tree →
      Loop.Turn ((List Pending × List NodeId) × Tree)
        (Except Error ((List Pending × List NodeId) × Tree))
  | (([], operands), t) => .done (.ok (([], operands), t))
  | ((top :: pending, operands), t) =>
    match top.strength? with
    | some strength =>
      if least ≤ strength then
        match top.apply operands t with
        | .error e => .done (.error e)
        | .ok (operands, t) => .again ((pending, operands), t)
      else .done (.ok ((top :: pending, operands), t))
    | none => .done (.ok ((top :: pending, operands), t))

/-- An operator that is applied is open no longer. -/
theorem measured_reduceTurn (least : Nat) :
    Loop.Measured (reduceTurn least) (fun state => state.1.1.length)
      (fun state => reduceWhile least state.1.1 state.1.2 state.2) := by
  rintro ⟨⟨_ | ⟨top, pending⟩, operands⟩, t⟩
  · exact rfl
  · dsimp only
    rw [reduceTurn, reduceWhile]
    cases top.strength? with
    | none => exact rfl
    | some strength =>
      by_cases hle : least ≤ strength
      · simp only [hle, if_true]
        change Loop.Turn.Keeps _ _ _ (top.apply operands t >>= _) _
        cases top.apply operands t with
        | error e => exact rfl
        | ok result => exact ⟨Nat.lt_succ_self _, rfl⟩
      · simp only [hle, if_false]
        exact rfl

/-- One turn of a builder with a token. -/
def Builder.turn (fed : Fed) (state : Builder × Tree) :
    Loop.Turn (Builder × Tree) (Except Error ((Progress × Builder) × Tree)) :=
  match state.1.step fed state.2 with
  | .error e => .done (.error e)
  | .ok ((some progress, later), t) => .done (.ok ((progress, later), t))
  | .ok ((none, later), t) => .again (later, t)

theorem Builder.measured_turn (fed : Fed) :
    Loop.Measured (Builder.turn fed) (fun state => state.1.turnsLeft)
      (fun state => state.1.feed fed state.2) := by
  rintro ⟨b, t⟩
  dsimp only
  fun_cases Builder.feed b fed t with
  | case1 e h =>
    simp only [Builder.turn, h]
    exact rfl
  | case2 progress later t' h =>
    simp only [Builder.turn, h]
    exact rfl
  | case3 later t' h hleft =>
    simp only [Builder.turn, h]
    exact ⟨hleft, rfl⟩

/-- One turn of the automaton with a token. -/
def turn (fed : Fed) (state : Automaton × Tree) :
    Loop.Turn (Automaton × Tree) (Except Error ((Answer × Automaton) × Tree)) :=
  match state.1.step fed state.2 with
  | .error e => .done (.error e)
  | .ok ((.consumed, later), t) => .done (.ok ((.more, later), t))
  | .ok ((.accept, later), t) => .done (.ok ((.accepted, later), t))
  | .ok ((.again, later), t) => .again (later, t)

theorem measured_turn (fed : Fed) :
    Loop.Measured (turn fed) (fun state => state.1.turnsLeft)
      (fun state => state.1.feed fed state.2) := by
  rintro ⟨a, t⟩
  dsimp only
  fun_cases feed a fed t with
  | case1 e h =>
    simp only [turn, h]
    exact rfl
  | case2 later t' h =>
    simp only [turn, h]
    exact rfl
  | case3 later t' h =>
    simp only [turn, h]
    exact rfl
  | case4 later t' h hleft =>
    simp only [turn, h]
    exact ⟨hleft, rfl⟩

/-- The loops inside the automaton end for a token, whatever the automaton and the tree are, and the
end of the text never leaves it waiting for more. -/
structure Dispatches (fed : Fed) : Prop where
  reduction : ∀ (least : Nat) (pending : List Pending) (operands : List NodeId) (t : Tree),
    Loop.EndsWithin (reduceTurn least) (pending.length + 1) ((pending, operands), t)
      (reduceWhile least pending operands t)
  expression : ∀ (b : Builder) (t : Tree),
    Loop.EndsWithin (Builder.turn fed) 2 (b, t) (b.feed fed t)
  statement : ∀ (a : Automaton) (t : Tree),
    Loop.EndsWithin (turn fed) 4 (a, t) (a.feed fed t)
  atEnd : fed.kind = .eof → ∀ (a later : Automaton) (t t' : Tree),
    a.feed fed t ≠ .ok ((.more, later), t')

theorem Builder.turnsLeft_le (b : Builder) : b.turnsLeft ≤ 1 := by
  unfold turnsLeft
  split <;> decide

theorem turnsLeft_le (a : Automaton) : a.turnsLeft ≤ 3 := by
  unfold turnsLeft
  split <;> decide

theorem dispatches (fed : Fed) : Dispatches fed where
  reduction least pending operands t := (measured_reduceTurn least).ends ((pending, operands), t)
  expression b t := ((Builder.measured_turn fed).ends (b, t)).mono (Nat.succ_le_succ b.turnsLeft_le)
  statement a t := ((measured_turn fed).ends (a, t)).mono (Nat.succ_le_succ a.turnsLeft_le)
  atEnd heof _ _ _ _ h := ne_eof_of_more h heof

end Automaton

/-- How far a text has been parsed: the place in the text, the automaton and the tree. -/
structure Parsing where
  scan : Scan
  automaton : Automaton
  tree : Tree

namespace Parsing

/-- Nothing of a text has been parsed. -/
def start (source text : String) : Parsing := ⟨Scan.ofText text, .initial, .ofTokens source #[]⟩

/-- One turn: a token is read and fed to the automaton. -/
def turn (source : String) (p : Parsing) : Loop.Turn Parsing (Except Error Tree) :=
  match p.scan.next source with
  | (.error e, _) => .done (.error e)
  | (.ok token, past) =>
    let (t, id) := p.tree.addToken token
    match p.automaton.feed ⟨token, id, source⟩ t with
    | .error e => .done (.error e)
    | .ok ((.accepted, _), t) => .done (.ok t)
    | .ok ((.more, later), t) => .again ⟨past, later, t⟩

/-- Every turn but the last takes some of the text. -/
theorem measured_turn (source : String) :
    Loop.Measured (turn source) (fun p => p.scan.rest.length)
      (fun p => readTree source p.scan p.automaton p.tree) := by
  rintro ⟨s, a, t⟩
  dsimp only
  fun_cases readTree source s a t with
  | case1 e past h =>
    simp only [turn, h]
    exact rfl
  | case2 token past h t' id hadd e hfed =>
    simp only [turn, h, hadd, hfed]
    exact rfl
  | case3 token past h t' id hadd last t'' hfed =>
    simp only [turn, h, hadd, hfed]
    exact rfl
  | case4 token past h t' id hadd later t'' hfed hshorter =>
    simp only [turn, h, hadd, hfed]
    exact ⟨hshorter, rfl⟩

/-- The loop of parsing ends for every text. -/
theorem turn_ends (source text : String) :
    Loop.EndsWithin (turn source) (text.length + 1) (start source text)
      (readTree source (Scan.ofText text) .initial (.ofTokens source #[])) := by
  have hends := (measured_turn source).ends (start source text)
  have hlength : (start source text).scan.rest.length = text.length := text.length_toList
  rwa [hlength] at hends

end Parsing

end SelectEngine
