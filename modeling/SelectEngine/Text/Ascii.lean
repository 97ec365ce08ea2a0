/-!
# Letter case and blanks

Names of tables, columns, aliases and functions ignore the case of the letters `A` to `Z` and of no
others. `foldCase` is the representative of a name up to that, and `sameName` compares two names by
it; it is an equivalence because it compares representatives. The blanks at the ends of a number's
text are those that Unicode calls white space.
-/

set_option autoImplicit false

namespace SelectEngine.Text

/-- The text with the letters `A` to `Z` in lower case and all else kept. -/
def foldCase (s : String) : String :=
  String.ofList (s.toList.map Char.toLower)

/-- The text with the letters `a` to `z` in upper case and all else kept. -/
def raiseCase (s : String) : String :=
  String.ofList (s.toList.map Char.toUpper)

/-- Two names are the same up to ASCII letter case. -/
def sameName (a b : String) : Bool :=
  foldCase a == foldCase b

theorem sameName_iff (a b : String) : sameName a b = true ↔ foldCase a = foldCase b := by
  simp [sameName]

/-! ## Blanks -/

/-- The ranges of code points that Unicode calls white space. -/
def blankRanges : List (Nat × Nat) :=
  [(0x09, 0x0d), (0x20, 0x20), (0x85, 0x85), (0xa0, 0xa0), (0x1680, 0x1680), (0x2000, 0x200a),
    (0x2028, 0x2029), (0x202f, 0x202f), (0x205f, 0x205f), (0x3000, 0x3000)]

/-- A character that Unicode calls white space. -/
def isSpace (c : Char) : Bool :=
  blankRanges.any fun (first, last) => first ≤ c.toNat && c.toNat ≤ last

/-- The text without white space at its ends. -/
def trim (cs : List Char) : List Char :=
  ((cs.dropWhile isSpace).reverse.dropWhile isSpace).reverse

end SelectEngine.Text
