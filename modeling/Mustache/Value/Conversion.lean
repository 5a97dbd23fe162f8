import Mustache.Value

/-!
# Values of common data

Members of common types have a value, which can be part of a view.
-/

namespace Mustache

open Number

/-- Types whose members have a value. -/
class ToValue (α : Type) where
  toValue : α → Value

export ToValue (toValue)

instance : ToValue Value :=
  ⟨id⟩

instance : ToValue Unit :=
  ⟨fun _ => .null⟩

instance : ToValue Bool :=
  ⟨.bool⟩

/-! ## Numbers -/

instance : ToValue Int64 :=
  ⟨.integer⟩

instance : ToValue Int32 :=
  ⟨fun n => .integer n.toInt64⟩

instance : ToValue Int16 :=
  ⟨fun n => .integer n.toInt64⟩

instance : ToValue Int8 :=
  ⟨fun n => .integer n.toInt64⟩

instance : ToValue UInt32 :=
  ⟨fun n => .integer n.toUInt64.toInt64⟩

instance : ToValue UInt16 :=
  ⟨fun n => .integer n.toUInt64.toInt64⟩

instance : ToValue UInt8 :=
  ⟨fun n => .integer n.toUInt64.toInt64⟩

instance : ToValue Binary64 :=
  ⟨.float⟩

instance : ToValue Binary32 :=
  ⟨fun x => .float x.widen⟩

/-! ## Texts, lambdas and collections -/

instance : ToValue String :=
  ⟨.text⟩

instance : ToValue Lambda :=
  ⟨.lambda⟩

section

variable {α : Type} [ToValue α]

instance : ToValue (Option α) :=
  ⟨fun o => o.elim .null toValue⟩

instance : ToValue (List α) :=
  ⟨fun xs => .list (xs.map toValue)⟩

/-- The map of some entries, of which a later one replaces an earlier one. -/
def Value.ofPairs (pairs : List (String × α)) : Value :=
  .ofEntries (pairs.map fun pair => (pair.1, toValue pair.2))

end

end Mustache
