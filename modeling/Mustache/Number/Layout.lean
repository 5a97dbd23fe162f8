import Mustache.Number.Binary

/-!
# The text of a floating point number

A layout fixes how the digits of a shortest decimal are arranged: where an
exponent is written, and whether a whole number shows a fraction.  A text is
given in pieces, in the order in which they are written.
-/

namespace Mustache.Number

/-! ## Layouts -/

/-- The decisions on how a number is written. -/
structure Layout where
  /-- Which of two equally near decimals is shown. -/
  tie : Tie
  /-- The places of the point, the least and the greatest, that are written without an exponent;
  with none of them an exponent is never written. -/
  positional : Option (Int × Int)
  /-- Whether a whole number ends in `.0`. -/
  showsFraction : Bool
  /-- The sign of an exponent from zero on. -/
  exponentSign : List Char
deriving DecidableEq, Repr

namespace Layout

/-- A number in a rendered text has no exponent and no needless fraction. -/
def plain : Layout :=
  ⟨.up, none, false, []⟩

/-- A number in the text of a value has an exponent below `0.0001` and from `10 ^ 16` on. -/
def literal : Layout :=
  ⟨.up, some (-3, 16), true, []⟩

/-- A number of 64 bits that becomes a key has an exponent, always with a sign, below `0.00001` and
from `10 ^ 16` on. -/
def key64 : Layout :=
  ⟨.even, some (-4, 16), true, ['+']⟩

/-- A number of 32 bits that becomes a key has an exponent, always with a sign, below `0.000001`
and from `10 ^ 13` on. -/
def key32 : Layout :=
  ⟨.even, some (-5, 13), true, ['+']⟩

/-- Whether a number with this place of the point is written without an exponent. -/
def isPositional (layout : Layout) (point : Int) : Bool :=
  match layout.positional with
  | none => true
  | some (least, greatest) => least ≤ point && point ≤ greatest

/-! ## Digits -/

/-- Zeros in pieces of at most sixty-four. -/
def zeros (n : Nat) : List (List Char) :=
  List.replicate (n / 64) (List.replicate 64 '0') ++
    if n % 64 = 0 then [] else [List.replicate (n % 64) '0']

/-- The pieces of a decimal without an exponent. -/
def positionalPieces (layout : Layout) (d : Decimal) : List (List Char) :=
  if d.point ≤ 0 then
    ['0', '.'] :: zeros (-d.point).toNat ++ [d.digits]
  else if d.point < d.digits.length then
    [d.digits.take d.point.toNat, ['.'], d.digits.drop d.point.toNat]
  else
    d.digits :: zeros (d.point.toNat - d.digits.length) ++
      if layout.showsFraction then [['.', '0']] else []

/-- The pieces of a decimal with an exponent. -/
def exponentPieces (layout : Layout) (d : Decimal) : List (List Char) :=
  let exponent := d.point - 1
  let mark := 'e' :: if exponent < 0 then ['-'] else layout.exponentSign
  [d.digits.take 1] ++ (if d.digits.length ≤ 1 then [] else [['.'], d.digits.drop 1]) ++
    [mark, Nat.toDigits 10 exponent.natAbs]

/-- The pieces of a decimal. -/
def decimalPieces (layout : Layout) (d : Decimal) : List (List Char) :=
  if layout.isPositional d.point then layout.positionalPieces d else layout.exponentPieces d

/-- The pieces of a magnitude, or of zero. -/
def magnitudePieces (layout : Layout) (magnitude : Option Dyadic) : List (List Char) :=
  match magnitude with
  | none => layout.positionalPieces ⟨['0'], 1⟩
  | some x => layout.decimalPieces (x.shortest layout.tie)

end Layout

/-! ## Numbers -/

/-- The piece for the sign of a number. -/
def signPieces (negative : Bool) : List (List Char) :=
  if negative then [['-']] else []

/-- The pieces of a number. -/
def Binary64.pieces (layout : Layout) (x : Binary64) : List (List Char) :=
  if x.isNaN then
    [['N', 'a', 'N']]
  else if x.isFinite then
    signPieces x.isNegative ++
      layout.magnitudePieces (if x.isZero then none else some x.magnitude)
  else
    signPieces x.isNegative ++ [['i', 'n', 'f']]

/-- The text of a number. -/
def Binary64.text (layout : Layout) (x : Binary64) : String :=
  String.ofList (x.pieces layout).flatten

/-- The text of a finite number of the format of 32 bits, with the digits of that format. -/
def Binary32.text (layout : Layout) (x : Binary32) : String :=
  String.ofList (signPieces x.isNegative ++
    layout.magnitudePieces (if x.isZero then none else some x.magnitude)).flatten

end Mustache.Number
