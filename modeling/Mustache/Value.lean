import Mustache.Dictionary
import Mustache.Flaw
import Mustache.Number.Layout

/-!
# Values

A template is rendered against a value, its view.  A value is a scalar, a
collection of values, or a lambda, whose text is made up when it is rendered.

Main results:

- Theorem `Value.lookup_map` and theorem `Value.lookup_list`: maps are read by
  key and lists by index.
-/

namespace Mustache

open Number

/-! ## Lambdas -/

/-- Whether a lambda is given the raw text of the section that it stands for. -/
inductive LambdaKind where
  | interpolation
  | block
deriving DecidableEq, Repr

/-- A lambda is known by its handle alone; whoever renders a template knows what it does. -/
structure Lambda where
  handle : Nat
  kind : LambdaKind
deriving DecidableEq, Repr

/-! ## Values -/

/-- The data that a template is rendered against. -/
inductive Value where
  | null
  | bool (b : Bool)
  | integer (n : Int64)
  | float (x : Binary64)
  | text (s : String)
  | list (items : List Value)
  | map (entries : List (String × Value))
  | lambda (l : Lambda)

instance : Inhabited Value :=
  ⟨.null⟩

namespace Value

/-- The map of some entries, of which a later one replaces an earlier one. -/
def ofEntries (entries : List (String × Value)) : Value :=
  map (Dictionary.ofList entries)

/-! ## Equality -/

mutual

/-- Whether two values are equal: numbers as numbers, lambdas if they are the same one. -/
def equal : Value → Value → Bool
  | null, null => true
  | bool a, bool b => a == b
  | integer m, integer n => m == n
  | float x, float y => x.numericallyEqual y
  | text s, text t => s == t
  | list xs, list ys => equalItems xs ys
  | map xs, map ys => equalEntries xs ys
  | lambda l, lambda m => l.handle == m.handle
  | _, _ => false

/-- Whether two lists are equal item by item. -/
def equalItems : List Value → List Value → Bool
  | [], [] => true
  | x :: xs, y :: ys => equal x y && equalItems xs ys
  | _, _ => false

/-- Whether two maps have equal keys with equal values. -/
def equalEntries : List (String × Value) → List (String × Value) → Bool
  | [], [] => true
  | (k, x) :: xs, (l, y) :: ys => k == l && equal x y && equalEntries xs ys
  | _, _ => false

end

instance : BEq Value :=
  ⟨equal⟩

/-! ## Truth and access -/

/-- Whether the value skips a section and selects an inverted one.  Zero and the empty text do
not. -/
def isFalsey : Value → Bool
  | null => true
  | bool b => !b
  | list items => items.isEmpty
  | map entries => entries.isEmpty
  | _ => false

/-- The natural number that a segment of a name stands for; a plus sign may precede its digits. -/
def index? (segment : List Char) : Option Nat :=
  let digits := if segment.head? = some '+' then segment.tail else segment
  if digits.isEmpty || !digits.all Char.isDigit then
    none
  else
    some (digits.foldl (fun n c => 10 * n + (c.toNat - '0'.toNat)) 0)

/-- The member of a collection that a segment of a name stands for. -/
def lookup (v : Value) (segment : String) : Option Value :=
  match v with
  | map entries => Dictionary.get? entries segment
  | list items => (index? segment.toList).bind fun i => items[i]?
  | _ => none

@[simp]
theorem lookup_map (entries : List (String × Value)) (key : String) :
    (map entries).lookup key = Dictionary.get? entries key :=
  rfl

@[simp]
theorem lookup_list (items : List Value) (segment : String) :
    (list items).lookup segment = (index? segment.toList).bind fun i => items[i]? :=
  rfl

end Value

/-! ## Text of scalars -/

/-- The pieces of an integer: its sign and its digits. -/
def integerPieces (n : Int) : List (List Char) :=
  signPieces (n < 0) ++ [Nat.toDigits 10 n.natAbs]

namespace Value

/-- The pieces of a value; a collection and a lambda have no text of their own. -/
def pieces : Value → List (List Char)
  | null => []
  | bool true => [['t', 'r', 'u', 'e']]
  | bool false => [['f', 'a', 'l', 's', 'e']]
  | integer n => integerPieces n.toInt
  | float x => x.pieces .plain
  | text s => [s.toList]
  | list _ | map _ | lambda _ => []

@[simp]
theorem pieces_text (s : String) : (text s).pieces = [s.toList] :=
  rfl

/-- The kind of collection that a value is. -/
def collection? : Value → Option Collection
  | list _ => some .list
  | map _ => some .map
  | _ => none

end Value

end Mustache
