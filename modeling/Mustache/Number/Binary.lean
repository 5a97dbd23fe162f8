import Mustache.Number.Shortest

/-!
# Binary floating point numbers

Numbers of the IEEE 754 formats of 64 and 32 bits, given by their bits.
-/

namespace Mustache.Number

/-! ## Fields of a format -/

/-- The positive number of a biased exponent and a fraction of so many bits. -/
def Dyadic.ofFields (fractionBits : Nat) (bias : Int) (exponent fraction : Nat) : Dyadic where
  significand := if exponent = 0 then fraction else fraction + 1 <<< fractionBits
  exponent := (max exponent 1 : Nat) - bias - fractionBits
  narrow := fraction = 0 && 1 < exponent

/-! ## The format of 64 bits -/

/-- A number of the format with 11 exponent bits and 52 fraction bits. -/
structure Binary64 where
  bits : UInt64
deriving DecidableEq, Repr

namespace Binary64

/-- Whether the sign bit is set. -/
def isNegative (x : Binary64) : Bool :=
  x.bits >>> 63 = 1

/-- The biased exponent. -/
def exponentField (x : Binary64) : Nat :=
  (x.bits >>> 52 &&& 0x7FF).toNat

/-- The fraction. -/
def fractionField (x : Binary64) : Nat :=
  (x.bits &&& 0xFFFFFFFFFFFFF).toNat

/-- Whether the number is neither infinite nor a NaN. -/
def isFinite (x : Binary64) : Bool :=
  x.exponentField ≠ 2047

/-- Whether the bits stand for no number. -/
def isNaN (x : Binary64) : Bool :=
  x.exponentField = 2047 && x.fractionField ≠ 0

/-- Whether the number is zero of either sign. -/
def isZero (x : Binary64) : Bool :=
  x.exponentField = 0 && x.fractionField = 0

/-- Equality of numbers: zeros of both signs are equal, and a NaN equals nothing. -/
def numericallyEqual (x y : Binary64) : Bool :=
  !x.isNaN && !y.isNaN && (x == y || (x.isZero && y.isZero))

/-- The magnitude of a finite number other than zero. -/
def magnitude (x : Binary64) : Dyadic :=
  Dyadic.ofFields 52 1023 x.exponentField x.fractionField

/-- The number of a sign, a biased exponent and a fraction. -/
def ofFields (negative : Bool) (exponent fraction : Nat) : Binary64 :=
  ⟨UInt64.ofNat ((if negative then 1 <<< 63 else 0) + exponent <<< 52 + fraction)⟩

/-- Division to the nearest natural number, with a half going to the even neighbour. -/
def divideToEven (n d : Nat) : Nat :=
  let below := n / d
  let rest := 2 * (n % d)
  if rest < d || (rest = d && below % 2 = 0) then below else below + 1

/-- The number nearest to a natural number; of two equally near ones the even one. -/
def ofNat (n : Nat) : Binary64 :=
  if n = 0 then
    ofFields false 0 0
  else
    let top := n.log2
    -- a significand that is rounded up to the next power of two carries into the exponent
    let significand := if top ≤ 52 then n <<< (52 - top) else divideToEven n (1 <<< (top - 52))
    if 1024 ≤ top then
      ofFields false 2047 0
    else
      ofFields false (top + 1022) significand

end Binary64

/-! ## The format of 32 bits -/

/-- A number of the format with 8 exponent bits and 23 fraction bits. -/
structure Binary32 where
  bits : UInt32
deriving DecidableEq, Repr

namespace Binary32

/-- Whether the sign bit is set. -/
def isNegative (x : Binary32) : Bool :=
  x.bits >>> 31 = 1

/-- The biased exponent. -/
def exponentField (x : Binary32) : Nat :=
  (x.bits >>> 23 &&& 0xFF).toNat

/-- The fraction. -/
def fractionField (x : Binary32) : Nat :=
  (x.bits &&& 0x7FFFFF).toNat

/-- Whether the number is neither infinite nor a NaN. -/
def isFinite (x : Binary32) : Bool :=
  x.exponentField ≠ 255

/-- Whether the number is zero of either sign. -/
def isZero (x : Binary32) : Bool :=
  x.exponentField = 0 && x.fractionField = 0

/-- The magnitude of a finite number other than zero. -/
def magnitude (x : Binary32) : Dyadic :=
  Dyadic.ofFields 23 127 x.exponentField x.fractionField

/-- The same number in the format of 64 bits. -/
def widen (x : Binary32) : Binary64 :=
  let fraction := x.fractionField
  if x.exponentField = 255 then
    Binary64.ofFields x.isNegative 2047 (fraction <<< 29)
  else if x.exponentField ≠ 0 then
    Binary64.ofFields x.isNegative (x.exponentField + 896) (fraction <<< 29)
  else if fraction = 0 then
    Binary64.ofFields x.isNegative 0 0
  else
    -- a fraction without the implicit bit is shifted until its top bit is the implicit one
    let top := fraction.log2
    Binary64.ofFields x.isNegative (top + 874) ((fraction - 1 <<< top) <<< (52 - top))

end Binary32

end Mustache.Number
