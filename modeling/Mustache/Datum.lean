import Mustache.Error
import Mustache.Number.Layout
import Mustache.Value

/-!
# Structured data

Data of a program, such as records, variants and maps with keys of many kinds,
can be converted to a value.  A conversion fails on a key that has no text, on
an integer of more than 64 bits, and on a lambda.
-/

namespace Mustache

open Number

/-! ## Data -/

/-- Data of a program, told apart by how it is put together. -/
inductive Datum where
  /-- The unit value, a missing value and a record without fields. -/
  | nothing
  | bool (b : Bool)
  | integer (n : Int)
  | float32 (x : Binary32)
  | float64 (x : Binary64)
  | character (c : Char)
  | text (s : String)
  | bytes (bs : List UInt8)
  /-- A value that might be missing and is there. -/
  | present (d : Datum)
  /-- A value in a wrapper of its own. -/
  | wrapped (d : Datum)
  /-- Values in a row: a sequence, a tuple or a record without field names. -/
  | sequence (items : List Datum)
  | record (fields : List (String × Datum))
  | map (entries : List (Datum × Datum))
  /-- A variant without data, with one value, with a row of values and with named fields. -/
  | variant (name : String)
  | variantOf (name : String) (d : Datum)
  | variantSequence (name : String) (items : List Datum)
  | variantRecord (name : String) (fields : List (String × Datum))
  | lambda

namespace Datum

/-! ## Keys -/

/-- The key that a datum stands for. -/
def toKey : Datum → Except ConversionFault String
  | bool b => .ok (if b then "true" else "false")
  | integer n => .ok (toString n)
  | float32 x => if x.isFinite then .ok (x.text .key32) else .error .keyNotFinite
  | float64 x => if x.isFinite then .ok (x.text .key64) else .error .keyNotFinite
  | character c => .ok (String.singleton c)
  | text s => .ok s
  | wrapped d => d.toKey
  | variant name => .ok name
  | lambda => .error .lambda
  | _ => .error .keyNotText

/-! ## Values -/

/-- The value of an integer; one beyond the integers with a sign becomes the nearest float. -/
def integerToValue (n : Int) : Except ConversionFault Value :=
  if Int64.minValue.toInt ≤ n ∧ n ≤ Int64.maxValue.toInt then
    .ok (.integer (Int64.ofInt n))
  else if 0 ≤ n ∧ n.toNat < UInt64.size then
    .ok (.float (Binary64.ofNat n.toNat))
  else
    .error .integerOutOfRange

/-- The value of a float; an infinity and a NaN have none. -/
def floatToValue (x : Binary64) : Value :=
  if x.isFinite then .float x else .null

/-- The map with one entry. -/
def single (name : String) (v : Value) : Value :=
  .map [(name, v)]

mutual

/-- The value of a datum. -/
def toValue : Datum → Except ConversionFault Value
  | nothing => .ok .null
  | bool b => .ok (.bool b)
  | integer n => integerToValue n
  | float32 x => .ok (floatToValue x.widen)
  | float64 x => .ok (floatToValue x)
  | character c => .ok (.text (String.singleton c))
  | text s => .ok (.text s)
  | bytes bs => .ok (.list (bs.map fun b => .integer (Int64.ofNat b.toNat)))
  | present d => toValue d
  | wrapped d => toValue d
  | sequence items => (itemsToValues items).map .list
  | record fields => (fieldsToEntries fields).map .ofEntries
  | map entries => (pairsToEntries entries).map .ofEntries
  | variant name => .ok (.text name)
  | variantOf name d => (toValue d).map (single name)
  | variantSequence name items => (itemsToValues items).map fun vs => single name (.list vs)
  | variantRecord name fields =>
    (fieldsToEntries fields).map fun entries => single name (.ofEntries entries)
  | lambda => .error .lambda

/-- The values of a row of data. -/
def itemsToValues : List Datum → Except ConversionFault (List Value)
  | [] => .ok []
  | d :: ds => (toValue d).bind fun v => (itemsToValues ds).map fun vs => v :: vs

/-- The entries of named fields. -/
def fieldsToEntries : List (String × Datum) → Except ConversionFault (List (String × Value))
  | [] => .ok []
  | (name, d) :: rest =>
    (toValue d).bind fun v => (fieldsToEntries rest).map fun entries => (name, v) :: entries

/-- The entries of pairs of a key and a value, the key of each pair being converted first. -/
def pairsToEntries : List (Datum × Datum) → Except ConversionFault (List (String × Value))
  | [] => .ok []
  | (k, d) :: rest =>
    (toKey k).bind fun key =>
      (toValue d).bind fun v => (pairsToEntries rest).map fun entries => (key, v) :: entries

end

end Datum

/-! ## Values as data -/

namespace Value

mutual

/-- A value as a datum. -/
def toDatum : Value → Datum
  | null => .nothing
  | bool b => .bool b
  | integer n => .integer n.toInt
  | float x => .float64 x
  | text s => .text s
  | list items => .sequence (itemsToData items)
  | map entries => .map (entriesToPairs entries)
  | lambda _ => .lambda

/-- Values as data. -/
def itemsToData : List Value → List Datum
  | [] => []
  | v :: vs => toDatum v :: itemsToData vs

/-- Entries as pairs of data. -/
def entriesToPairs : List (String × Value) → List (Datum × Datum)
  | [] => []
  | (k, v) :: rest => (.text k, toDatum v) :: entriesToPairs rest

end

/-- The value that a value becomes as structured data. -/
def converted (v : Value) : Except ConversionFault Value :=
  v.toDatum.toValue

end Value

end Mustache
