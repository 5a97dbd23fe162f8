import Mustache.Text.Width.Classes

/-!
# Ligatures

Letters that are written as one sign: an Arabic lam with an alef, two Tifinagh
consonants, or a Khmer letter below another one.  A text is measured from its
end, so what has been seen of a ligature is its rear part.

Main results:

- Theorem `Ligature.reserve_before?_le`: a character takes back no more columns than
  the ligature behind it holds in reserve.
-/

namespace Mustache.Text.Width

/-- The rear part of a ligature; some letters are ligated only by a joiner before them. -/
inductive Ligature where
  /-- An Arabic alef. -/
  | alef
  /-- A Hebrew lamed. -/
  | lamed (joined : Bool)
  /-- A Khmer letter that can be put below another one. -/
  | subscript
  /-- A Buginese ya. -/
  | ya (joined : Bool)
  /-- A joined Buginese ya and the vowel before it. -/
  | vowelYa
  /-- A Tifinagh consonant. -/
  | tifinagh (joined : Bool)
  /-- A Tifinagh consonant and the consonant joiner before it. -/
  | joinedTifinagh
  /-- A second tone letter of Lisu. -/
  | toneLetter
  /-- An Old Turkic i of the Orkhon script. -/
  | orkhonI (joined : Bool)
deriving DecidableEq, Repr

namespace Ligature

/-- What a character by itself is the rear part of. -/
def ofChar? (c : Char) : Option Ligature :=
  if alefs.contains c then some alef
  else if c = '\u05DC' then some (lamed false)
  else if subscriptable.contains c then some subscript
  else if c = '\u1A10' then some (ya false)
  else if tifinaghConsonants.contains c then some (tifinagh false)
  else if c = '\uA4FC' || c = '\uA4FD' then some toneLetter
  else if c.toNat = 0x10C03 then some (orkhonI false)
  else none

/-- The rear part with a joiner before it. -/
def join : Ligature → Ligature
  | lamed _ => lamed true
  | ya _ => ya true
  | tifinagh _ => tifinagh true
  | orkhonI _ => orkhonI true
  | l => l

/-- The columns that a character before the ligature may take back. -/
def reserve : Ligature → Int
  | subscript => 1
  | joinedTifinagh => 1
  | _ => 0

/-- Whether Arabic letters join across the character, which has no column. -/
def isTransparent (c : Char) : Bool :=
  zeroWidth.contains c && !nonTransparent.contains c

/-- The columns that a letter adds in front of a ligature if it belongs to it. -/
def beforeLetter? (c : Char) : Ligature → Option (Int × Option Ligature)
  | lamed true => if c = '\u05D0' then some (0, none) else none
  | subscript => if c = '\u17D2' then some (-1, none) else none
  | ya true => if c = '\u1A17' then some (0, some vowelYa) else none
  | vowelYa => if c = '\u1A15' then some (0, none) else none
  | tifinagh joined =>
    if c = '\u2D7F' then some (1, some joinedTifinagh)
    else if joined && tifinaghConsonants.contains c then some (0, none)
    else none
  | joinedTifinagh => if tifinaghConsonants.contains c then some (-1, none) else none
  | toneLetter => if '\uA4F8' ≤ c && c ≤ '\uA4FB' then some (0, none) else none
  | orkhonI true => if c.toNat = 0x10C32 then some (0, none) else none
  | _ => none

/-- The columns that a character adds in front of a ligature if it goes on with it, and what is
left of the ligature. -/
def before? (c : Char) : Ligature → Option (Int × Option Ligature)
  | alef =>
    if lams.contains c then some (0, none)
    else if isTransparent c then some (0, some alef)
    else none
  | l =>
    if c = '\u200D' then some (0, some l.join)
    else if ignorableMarks.contains c then some (0, some l)
    else l.beforeLetter? c

theorem reserve_nonneg (l : Ligature) : 0 ≤ l.reserve := by
  unfold reserve
  split <;> decide

theorem reserve_le_one (l : Ligature) : l.reserve ≤ 1 := by
  unfold reserve
  split <;> decide

/-- A character takes back no more columns than the ligature behind it holds in reserve. -/
theorem reserve_before?_le {c : Char} {l : Ligature} {l' : Option Ligature} {n : Int}
    (h : l.before? c = some (n, l')) : (l'.elim 0 reserve) ≤ n + l.reserve := by
  cases l <;> simp only [before?, beforeLetter?, join] at h <;> grind [reserve, Option.elim]

end Ligature

end Mustache.Text.Width
