import Mustache.Text.Bytes

/-!
# Sinks

Output goes piece by piece to a sink: a buffer, which takes everything, or a
device, which may refuse a piece or take only a part of it.

Main results:

- Theorem `Device.taken_prefix`: what it takes of a piece is the beginning of it.
-/

namespace Mustache

/-! ## Devices -/

/-- A device that fails after some pieces or some bytes. -/
structure Device where
  /-- The number of pieces after which every further one is refused. -/
  failAfter : Option Nat := none
  /-- The number of bytes after which every further one is refused. -/
  limit : Option Nat := none
  accepted : List UInt8 := []
  /-- The number of pieces that were offered. -/
  offered : Nat := 0
  /-- The device's own words for a failure. -/
  reason : String := "writer is closed"
deriving DecidableEq, Repr

namespace Device

/-- The bytes of a piece that the device takes. -/
def taken (d : Device) (bytes : List UInt8) : List UInt8 :=
  if d.failAfter.any (· ≤ d.offered) then
    []
  else
    match d.limit with
    | none => bytes
    | some limit => bytes.take (limit - d.accepted.length)

/-- Offers a piece to the device. -/
def offer (d : Device) (bytes : List UInt8) : Device :=
  { d with accepted := d.accepted ++ d.taken bytes, offered := d.offered + 1 }

/-- Whether the device takes the whole piece. -/
def takesWhole (d : Device) (bytes : List UInt8) : Bool :=
  d.taken bytes == bytes

/-- What a device takes of a piece is the beginning of it. -/
theorem taken_prefix (d : Device) (bytes : List UInt8) : d.taken bytes <+: bytes := by
  unfold taken
  split
  · exact List.nil_prefix
  · split
    · exact List.prefix_rfl
    · exact List.take_prefix _ _

end Device

/-! ## Sinks -/

/-- The place that output goes to. -/
inductive Sink where
  | buffer (text : String)
  | device (d : Device)
deriving DecidableEq, Repr

namespace Sink

/-- An empty buffer. -/
def empty : Sink :=
  buffer ""

/-- Writes a piece as far as the sink takes it. -/
def write (sink : Sink) (piece : List Char) : Sink :=
  match sink with
  | buffer text => buffer (text ++ String.ofList piece)
  | device d => device (if piece.isEmpty then d else d.offer (Text.encode piece))

/-- Why the sink does not take a whole piece, if it does not. -/
def refusal? (sink : Sink) (piece : List Char) : Option String :=
  match sink with
  | buffer _ => none
  | device d =>
    if piece.isEmpty || d.takesWhole (Text.encode piece) then none else some d.reason

@[simp]
theorem refusal?_buffer (text : String) (piece : List Char) :
    (buffer text).refusal? piece = none :=
  rfl

/-- The text of a buffer. -/
def text : Sink → String
  | buffer text => text
  | device _ => ""

/-- The bytes that were written. -/
def bytes : Sink → List UInt8
  | buffer text => Text.encode text.toList
  | device d => d.accepted

end Sink

end Mustache
