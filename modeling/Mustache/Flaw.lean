import Mustache.Fragment

/-!
# Flaws of a template

A flaw is something wrong at a place of a template: tags that do not fit
together, or a name whose value has no text.  Its cause is kept apart from the
words that report it.
-/

namespace Mustache

/-- The collections, which have no text of their own. -/
inductive Collection where
  | list
  | map
deriving DecidableEq, Repr

/-- The name of the collection in a report. -/
def Collection.toString : Collection → String
  | list => "list"
  | map => "map"

/-- What can be wrong at a place of a template. -/
inductive Fault where
  /-- The text that ends the tag does not follow. -/
  | unclosedTag (terminator : String)
  /-- A close tag stands where no section is open. -/
  | unmatchedClose
  /-- A close tag stands where another section has to be closed first. -/
  | mismatchedClose (expected : String)
  /-- The template ends inside a section. -/
  | unclosedSection (name : String)
  /-- A set delimiter tag does not name two usable markers. -/
  | badMarkers
  /-- The value of a name is a collection, but a text is wanted. -/
  | notRenderable (found : Collection)
deriving DecidableEq, Repr

/-- The words that report the fault. -/
def Fault.message : Fault → String
  | unclosedTag terminator => "unclosed tag, expected `" ++ terminator ++ "`"
  | unmatchedClose => "unexpected section close, no section is open"
  | mismatchedClose expected =>
    "unexpected section close, expected `" ++ expected ++ "` to be closed first"
  | unclosedSection name => "unclosed section `" ++ name ++ "`"
  | badMarkers => "invalid set delimiter tag, expected two markers separated by whitespace"
  | notRenderable found =>
    "expected renderable value, but expression evaluated to " ++ found.toString

/-- A fault and the stretch of the template that it concerns. -/
structure Flaw where
  fault : Fault
  span : Span
deriving DecidableEq, Repr

end Mustache
