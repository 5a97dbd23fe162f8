import Mustache.Number.Layout
import Mustache.Text.Quoted
import Mustache.Value

/-!
# Values as they are shown

The text that shows a value to a reader, with its kind and all its members.
-/

namespace Mustache

open Number

/-- Texts between commas. -/
def commaSeparated (items : List String) : String :=
  ", ".intercalate items

/-- Items between square brackets. -/
def bracketed (items : List String) : String :=
  "[" ++ commaSeparated items ++ "]"

/-- Items between braces. -/
def braced (items : List String) : String :=
  "\x7b" ++ commaSeparated items ++ "\x7d"

/-- The name of a kind and the parts that belong to it. -/
def tagged (name part : String) : String :=
  name ++ "(" ++ part ++ ")"

/-- How a lambda is shown; what it does stays hidden. -/
def Lambda.quoted (l : Lambda) : String :=
  match l.kind with
  | .interpolation => "Interpolation(..)"
  | .block => "Section(..)"

namespace Value

mutual

/-- How a value is shown. -/
def quoted : Value → String
  | null => "None"
  | bool b => tagged "Bool" (if b then "true" else "false")
  | integer n => tagged "Integer" (toString n.toInt)
  | float x => tagged "Float" (x.text .literal)
  | text s => tagged "String" (Text.quoted s)
  | list items => tagged "List" (bracketed (quotedItems items))
  | map entries => tagged "Map" (braced (quotedEntries entries))
  | lambda l => tagged "Lambda" l.quoted

/-- How the items of a list are shown. -/
def quotedItems : List Value → List String
  | [] => []
  | v :: vs => quoted v :: quotedItems vs

/-- How the entries of a map are shown. -/
def quotedEntries : List (String × Value) → List String
  | [] => []
  | (k, v) :: rest => (Text.quoted k ++ ": " ++ quoted v) :: quotedEntries rest

end

end Value

end Mustache
