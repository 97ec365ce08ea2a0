import SelectEngine.Text.CaseTable

/-!
# Upper and lower case of text

The full case mappings of Unicode: a character may become several (`ß` in upper case is `SS`). A
capital sigma that ends a word becomes the final small sigma: some letter with case stands before
it and none behind, looking through the characters that case rules ignore.
-/

set_option autoImplicit false

namespace SelectEngine.Text

/-- The image of a code point under the runs of a mapping, itself where no run has it. -/
def mapRun (runs : List (Nat × Nat × Nat × Int)) (n : Nat) : Nat :=
  match runs.find? fun (first, last, step, _) =>
      first ≤ n && n ≤ last && (n - first) % step == 0 with
  | some (_, _, _, distance) => (n + distance).toNat
  | none => n

/-- The image of a character under a mapping. -/
def mapCase (runs : List (Nat × Nat × Nat × Int)) (expansions : List (Nat × List Nat)) (c : Char) :
    List Char :=
  match expansions.lookup c.toNat with
  | some image => image.map Char.ofNat
  | none => [Char.ofNat (mapRun runs c.toNat)]

/-- The character is in one of the ranges. -/
def inRanges (ranges : List (Nat × Nat)) (c : Char) : Bool :=
  ranges.any fun (first, last) => first ≤ c.toNat && c.toNat ≤ last

/-- The first character that case rules do not ignore has case. -/
def startsCased (cs : List Char) : Bool :=
  match cs.dropWhile (inRanges ignorableRanges) with
  | c :: _ => inRanges casedRanges c
  | [] => false

/-- The lower case of the characters behind `before`, which is in reverse. -/
def lowerFrom (before : List Char) : List Char → List Char
  | [] => []
  | c :: rest =>
    let image :=
      if c = 'Σ' then
        if startsCased before && !startsCased rest then ['ς'] else ['σ']
      else mapCase lowerRuns lowerExpansions c
    image ++ lowerFrom (c :: before) rest

/-- The text in lower case. -/
def lower (s : String) : String := String.ofList (lowerFrom [] s.toList)

/-- The text in upper case. -/
def upper (s : String) : String :=
  String.ofList (s.toList.flatMap (mapCase upperRuns upperExpansions))

end SelectEngine.Text
