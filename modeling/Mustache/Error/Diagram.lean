import Mustache.Error
import Mustache.Text.Width

/-!
# Diagrams of errors

A diagram shows the source line in which a flaw begins, with carets under the
place of the flaw.  How many columns a text has is left open, until errors are
shown by the columns of a terminal.
-/

namespace Mustache

namespace Diagram

/-! ## Lines and columns -/

/-- The lines of a source without their newlines; nothing follows the last newline. -/
def lines : List Char → List (List Char)
  | [] => []
  | c :: cs =>
    if c = '\n' then
      [] :: lines cs
    else
      match lines cs with
      | [] => [[c]]
      | line :: rest => (c :: line) :: rest

section

-- The columns that a text has.
variable (columns : List Char → Nat)

/-- The line of an offset and its column, if one of the lines reaches as far. -/
def position? (offset : Nat) : List (List Char) → Option (Nat × Nat)
  | [] => none
  | line :: rest =>
    if offset < Text.byteLength line + 1 then
      some (0, columns (Text.takeBytes offset line))
    else
      (position? (offset - (Text.byteLength line + 1)) rest).map fun found =>
        (found.1 + 1, found.2)

/-- The line of an offset and its column; an offset beyond all lines is at the end of the last. -/
def position (offset : Nat) (ls : List (List Char)) : Nat × Nat :=
  (position? columns offset ls).getD (ls.length - 1, columns (ls.getLastD []))

/-! ## Drawing -/

/-- A row of one character. -/
def row (c : Char) (n : Nat) : String :=
  String.ofList (List.replicate n c)

/-- What a diagram shows. -/
structure Picture where
  inPartial : Option String
  /-- The number of the line, counted from one. -/
  number : Nat
  line : List Char
  column : Nat
  carets : Nat
  message : String
deriving DecidableEq, Repr

/-- The picture of a finding.  A flaw without width is shown by one caret. -/
def picture (finding : Finding) : Picture :=
  let source := finding.source.toList
  let span := finding.flaw.span
  let ls := lines source
  let here := position columns span.start ls
  { inPartial := finding.inPartial
    number := here.1 + 1
    line := ls[here.1]?.getD (ls.getLastD [])
    column := here.2
    carets := max 1 (columns (Text.slice span.start (min span.stop (Text.byteLength source))
      source))
    message := finding.flaw.fault.message }

/-- The text of a picture; the gutter is as wide as the number of the line. -/
def drawing (p : Picture) : String :=
  let number := toString p.number
  let gutter := row ' ' (columns number.toList)
  let origin :=
    match p.inPartial with
    | none => ""
    | some name => "\n  --> partial `" ++ name ++ "`"
  origin ++ "\n " ++ gutter ++ " |\n " ++ number ++ " | " ++ String.ofList p.line ++
    "\n " ++ gutter ++ " | " ++ row ' ' p.column ++ row '^' p.carets ++ " " ++ p.message ++ "\n"

/-- An error with a diagram of its place, or in one line if it has none. -/
def ofError : Error → String
  | .flawed finding => drawing columns (picture columns finding)
  | e => e.message

end

/-- The picture of a finding, by the columns of a terminal. -/
def ofFinding (finding : Finding) : Picture :=
  picture Text.width finding

end Diagram

/-- The error with a diagram of its place, or in one line if it has none. -/
def Error.pretty (e : Error) : String :=
  Diagram.ofError Text.width e

end Mustache
