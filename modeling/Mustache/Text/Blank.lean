/-!
# Blank characters

A class of characters is given by the ranges of code points that it covers.
Blanks are the characters with the Unicode property White_Space.  They
surround names inside tags, separate the markers of a set delimiter tag and
make a line standalone.
-/

namespace Mustache.Text

/-! ## Classes of characters -/

/-- Code point ranges, each given by its first and its last member. -/
abbrev Ranges := List (Nat × Nat)

/-- Whether the code point of the character lies in one of the ranges. -/
def Ranges.contains (ranges : Ranges) (c : Char) : Bool :=
  ranges.any fun range => range.1 ≤ c.toNat && c.toNat ≤ range.2

/-! ## Blanks -/

/-- The code points with the Unicode property White_Space. -/
def blanks : Ranges :=
  [(0x09, 0x0D), (0x20, 0x20), (0x85, 0x85), (0xA0, 0xA0), (0x1680, 0x1680), (0x2000, 0x200A),
   (0x2028, 0x2029), (0x202F, 0x202F), (0x205F, 0x205F), (0x3000, 0x3000)]

/-- Whether the character is a blank. -/
def isBlank (c : Char) : Bool :=
  blanks.contains c

/-! ## Trimming -/

/-- The text without the blanks at its beginning. -/
def trimLeft (cs : List Char) : List Char :=
  cs.dropWhile isBlank

/-- The text without the blanks at its end. -/
def trimRight (cs : List Char) : List Char :=
  (cs.reverse.dropWhile isBlank).reverse

/-- The text without the blanks at both ends. -/
def trim (cs : List Char) : List Char :=
  trimRight (trimLeft cs)

/-! ## Words -/

/-- The maximal runs of characters other than blanks, in order. -/
def words : List Char → List (List Char)
  | [] => []
  | c :: cs =>
    if isBlank c then
      words cs
    else if cs.head?.all isBlank then
      [c] :: words cs
    else
      match words cs with
      | [] => [[c]]
      | word :: rest => (c :: word) :: rest

end Mustache.Text
