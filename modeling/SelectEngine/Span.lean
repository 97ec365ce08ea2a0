import SelectEngine.Error

/-!
# Spans of the statement text

A span is a run of bytes with the line on which it starts. Spans are joined by `Span.join`: two
spans with text are joined to their hull and the earlier line; a span without text is a placeholder
that the other one replaces, so that it never drags a hull back to the start of the text.
-/

set_option autoImplicit false

namespace SelectEngine

/-- A run of bytes of the statement and the line, counted from one, of its first character. -/
structure Span where
  offset : Nat
  length : Nat
  line : Nat
deriving DecidableEq

namespace Span

/-- The placeholder of constructs without text. -/
def empty : Span := ⟨0, 0, 1⟩

/-- The byte just past the span. -/
def stop (s : Span) : Nat := s.offset + s.length

/-- A span without text. -/
def isEmpty (s : Span) : Bool := s.length == 0

/-- The span grown to cover `t` as well. -/
def join (s t : Span) : Span :=
  if s.isEmpty then t
  else if t.isEmpty then s
  else
    let start := min s.offset t.offset
    ⟨start, max s.stop t.stop - start, min s.line t.line⟩

/-- The span as the place of a failure in the statement named `source`. -/
def location (s : Span) (source : String) : Location :=
  ⟨source, s.line, s.offset, s.length⟩

/-- The diagnostic form of a span: source, line and byte range. -/
def range (s : Span) (source : String) : String :=
  s!"{source}:{s.line}@{s.offset}..{s.stop}"

/-- The part of `text` from byte `start` up to byte `stop`, if both lie between characters. -/
def cut (start stop : Nat) (text : String) : Option String :=
  go text.toList 0
where
  /-- Skips to byte `start`, standing at byte `at_`. -/
  go : List Char → Nat → Option String
    | cs, at_ =>
      if at_ = start then take cs at_ []
      else match cs with
        | [] => none
        | c :: rest => if at_ < start then go rest (at_ + c.utf8Size) else none
  /-- Collects, in reverse, up to byte `stop`. -/
  take : List Char → Nat → List Char → Option String
    | cs, at_, acc =>
      if at_ = stop then some (String.ofList acc.reverse)
      else match cs with
        | [] => none
        | c :: rest => if at_ < stop then take rest (at_ + c.utf8Size) (c :: acc) else none

/-- The text that the span covers, if its ends lie between characters of `text`. -/
def slice (s : Span) (text : String) : Option String :=
  cut s.offset s.stop text

theorem join_of_isEmpty {s t : Span} (h : s.isEmpty = true) : s.join t = t := by
  simp [join, h]

end Span

end SelectEngine
