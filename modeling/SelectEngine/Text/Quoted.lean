import SelectEngine.Text.EscapeTable

/-!
# Quoted text in diagnostics

A text between double quotes, in which quotes, backslashes and the common control characters are
escaped by a backslash and the other characters without a glyph by their number.
-/

set_option autoImplicit false

namespace SelectEngine.Text

/-- A character as quoted text writes it. -/
def escapeChar (c : Char) : List Char :=
  match c with
  | '"' => ['\\', '"']
  | '\\' => ['\\', '\\']
  | '\n' => ['\\', 'n']
  | '\r' => ['\\', 'r']
  | '\t' => ['\\', 't']
  | '\x00' => ['\\', '0']
  | _ =>
    if hiddenRanges.any fun (first, last) => first ≤ c.toNat && c.toNat ≤ last then
      ['\\', 'u', '\x7b'] ++ Nat.toDigits 16 c.toNat ++ ['\x7d']
    else [c]

/-- The text between quotes. -/
def quoted (s : String) : String :=
  String.ofList ('"' :: s.toList.flatMap escapeChar ++ ['"'])

end SelectEngine.Text
