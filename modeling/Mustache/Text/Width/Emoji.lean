import Mustache.Text.Width.Classes

/-!
# Emoji sequences

Several characters can make one picture: an emoji with a skin tone, a flag, or
emoji that are joined.  A text is measured from its end, so what has been seen
of a sequence is its rear part.

Main results:

- Theorem `Emoji.reserve_before?_le`: a character takes back no more columns than
  the sequence behind it holds in reserve.
-/

namespace Mustache.Text.Width

/-! ## Characters of emoji sequences -/

/-- Whether the character is one of the five skin tones. -/
def isTone (c : Char) : Bool :=
  0x1F3FB ≤ c.toNat && c.toNat ≤ 0x1F3FF

/-- Whether the character is a regional indicator, of which two make a flag. -/
def isIndicator (c : Char) : Bool :=
  0x1F1E6 ≤ c.toNat && c.toNat ≤ 0x1F1FF

/-- Whether the character is a letter among the tags of a flag. -/
def isTagLetter (c : Char) : Bool :=
  0xE0061 ≤ c.toNat && c.toNat ≤ 0xE007A

/-- Whether the character is a digit among the tags of a flag. -/
def isTagDigit (c : Char) : Bool :=
  0xE0030 ≤ c.toNat && c.toNat ≤ 0xE0039

/-- Whether the character ends the tags of a flag. -/
def isTagEnd (c : Char) : Bool :=
  c.toNat = 0xE007F

/-- Whether the character is the black flag, which tags make the flag of a region. -/
def isBlackFlag (c : Char) : Bool :=
  c.toNat = 0x1F3F4

/-- Whether a variation selector can make a picture of the character. -/
def hasPictureForm (c : Char) : Bool :=
  pictorialOrTextual.contains c || textual.contains c

/-- Whether a text presentation of the character takes one column. -/
def hasTextForm (c : Char) : Bool :=
  pictorialOrTextual.contains c && !(0x1F200 ≤ c.toNat && c.toNat ≤ 0x1F2FF)

/-! ## Sequences -/

/-- What stands in front of a picture to which a joiner may add a picture. -/
inductive Link where
  /-- The joiner alone. -/
  | joiner
  /-- A keycap and the joiner. -/
  | keycap
  /-- A regional indicator and the joiner. -/
  | indicator
  /-- Pairs of regional indicators and the joiner. -/
  | evenIndicators
  /-- One regional indicator more than in pairs, and the joiner. -/
  | oddIndicators
  /-- So many tag letters, the end of the tags and the joiner. -/
  | letters (n : Nat)
  /-- So many tag digits, perhaps letters, the end of the tags and the joiner. -/
  | digits (n : Nat)
deriving DecidableEq, Repr

/-- The rear part of an emoji sequence. -/
inductive Emoji where
  | picture
  | tone
  | indicator
  /-- Two or more regional indicators. -/
  | indicators
  | link (l : Link)
deriving DecidableEq, Repr

namespace Emoji

/-- What a character by itself is the rear part of. -/
def ofChar? (c : Char) : Option Emoji :=
  if isTone c then
    some tone
  else if isIndicator c then
    some indicator
  else if pictorial.contains c then
    some picture
  else
    none

/-- The columns of a character that is such a rear part. -/
def columns : Emoji → Int
  | indicator => 1
  | _ => 2

/-- The columns that a character before the sequence may take back. -/
def reserve : Emoji → Int
  | link .indicator => 1
  | link .oddIndicators => 1
  | _ => 0

/-- The columns that a character adds in front of a link if it goes on with it.  What is linked
shares the columns of the picture behind the joiner, and a pair of indicators counts as one
picture. -/
def beforeLink? (c : Char) : Link → Option (Int × Emoji)
  | .joiner =>
    if c = '\u20E3' then some (0, link .keycap)
    else if isTagEnd c then some (0, link (.letters 0))
    else if isIndicator c then some (1, link .indicator)
    else if isTone c then some (0, tone)
    else if pictorial.contains c then some (0, picture)
    else none
  | .keycap => none
  | .indicator => if isIndicator c then some (-1, link .evenIndicators) else none
  | .evenIndicators =>
    if isIndicator c then some (3, link .oddIndicators)
    else if c = '\u200D' then some (0, link .joiner)
    else none
  | .oddIndicators =>
    if isIndicator c then some (-1, link .evenIndicators)
    else if c = '\u200D' then some (0, link .joiner)
    else none
  | .letters n =>
    if isTagLetter c && n < 6 then some (0, link (.letters (n + 1)))
    else if isTagDigit c && n ≤ 4 then some (0, link (.digits 1))
    else if isBlackFlag c && 3 ≤ n then some (0, picture)
    else none
  | .digits n =>
    if isTagDigit c && n < 3 then some (0, link (.digits (n + 1)))
    else if isBlackFlag c && n = 3 then some (0, picture)
    else none

/-- The columns that a character adds in front of a sequence if it goes on with it. -/
def before? (c : Char) : Emoji → Option (Int × Emoji)
  | picture => if c = '\u200D' then some (0, link .joiner) else none
  | tone =>
    if toneable.contains c then some (0, picture)
    else if c = '\u200D' then some (0, link .joiner)
    else none
  | indicator => if isIndicator c then some (1, indicators) else none
  | indicators =>
    if isIndicator c then some (1, indicators)
    else if c = '\u200D' then some (0, link .joiner)
    else none
  | link l => beforeLink? c l

theorem reserve_nonneg (e : Emoji) : 0 ≤ e.reserve := by
  unfold reserve
  split <;> decide

/-- A character by itself has the columns that are held in reserve. -/
theorem reserve_le_columns (e : Emoji) : e.reserve ≤ e.columns := by
  unfold reserve columns
  split <;> split <;> decide

/-- A character takes back no more columns than the sequence behind it holds in reserve. -/
theorem reserve_before?_le {c : Char} {e e' : Emoji} {n : Int} (h : e.before? c = some (n, e')) :
    e'.reserve ≤ n + e.reserve := by
  cases e with
  | link l =>
    cases l <;> simp only [before?, beforeLink?] at h <;> grind [reserve]
  | _ =>
    simp only [before?] at h
    grind [reserve]

end Emoji

end Mustache.Text.Width
