import Mustache.Text.Width.Emoji
import Mustache.Text.Width.Ligature

/-!
# Display width

The number of columns that a text takes in a terminal.  The width of a
character depends on what follows it: a variation selector, a skin tone or a
joiner can make one picture of several characters, and letters can be ligated.

Main results:

- Theorem `reserve_le_measure`: what a character takes back from the text behind
  it has been counted there.
- Theorem `width_cons`: a text is measured from its end, and nothing is cut off
  at zero.
-/

namespace Mustache.Text

namespace Width

/-! ## What follows a character -/

/-- The presentation that a variation selector asks for. -/
inductive Style where
  | text
  | picture
deriving DecidableEq, Repr

/-- The style of a variation selector. -/
def Style.ofChar? (c : Char) : Option Style :=
  if c = '\uFE0E' then some .text
  else if c = '\uFE0F' then some .picture
  else none

/-- What characters behind a place can make up together with those before it. -/
inductive Sequence where
  | other
  | lineFeed
  | emoji (e : Emoji)
  | ligature (l : Ligature)
deriving DecidableEq, Repr

namespace Sequence

/-- Whether what stands before the sequence is joined to the picture in it. -/
def isLinked : Sequence → Bool
  | emoji (.link _) => true
  | _ => false

/-- What is left of the sequence behind a variation selector. -/
def select (style : Style) : Sequence → Sequence
  | ligature l => ligature l
  | emoji (.link .joiner) => if style = .picture then emoji (.link .joiner) else other
  | emoji (.link .keycap) => if style = .picture then emoji (.link .keycap) else other
  | _ => other

/-- The columns that a character before the sequence may take back. -/
def reserve : Sequence → Int
  | emoji e => e.reserve
  | ligature l => l.reserve
  | _ => 0

/-- The columns of a character by itself, and what it is the rear part of. -/
def ofChar (c : Char) : Int × Sequence :=
  match Emoji.ofChar? c, Ligature.ofChar? c with
  | some e, _ => (e.columns, emoji e)
  | none, some l => (1, ligature l)
  | none, none =>
    if zeroWidth.contains c then (0, other)
    else if c = '\u17D8' then (3, other)
    else if c = '\u17A4' || wide.contains c then (2, other)
    else (1, other)

/-- The columns that a character adds in front of a sequence if it goes on with it. -/
def before? (c : Char) : Sequence → Option (Int × Sequence)
  | emoji e => (e.before? c).map fun (n, e') => (n, emoji e')
  | ligature l => (l.before? c).map fun (n, l') => (n, l'.elim other ligature)
  | _ => none

end Sequence

/-- What follows a place, as far as it matters to the width before it. -/
structure Following where
  sequence : Sequence
  /-- The style that a variation selector in front of the sequence asks for. -/
  style : Option Style := none
deriving DecidableEq, Repr

/-! ## Columns -/

/-- The columns that a character adds in front of a sequence.  A line feed has no column, nor has
the carriage return before it. -/
def beforeSequence (c : Char) (s : Sequence) : Int × Following :=
  if c.toNat < 0xA1 then
    if c = '\n' then (0, ⟨.lineFeed, none⟩)
    else if c = '\r' && s = .lineFeed then (0, ⟨.other, none⟩)
    else (1, ⟨.other, none⟩)
  else
    match Style.ofChar? c with
    | some style => (0, ⟨s.select style, some style⟩)
    | none =>
      let here := (s.before? c).getD (Sequence.ofChar c)
      (here.1, ⟨here.2, none⟩)

/-- The columns that a character adds in front of what follows it.  A selector that does not
concern the character leaves a ligature behind it as it is. -/
def before (c : Char) (f : Following) : Int × Following :=
  match f.style with
  | none => beforeSequence c f.sequence
  | some .picture =>
    if hasPictureForm c then
      (if f.sequence.isLinked then 0 else 2, ⟨.emoji .picture, none⟩)
    else
      beforeSequence c (f.sequence.select .text)
  | some .text =>
    if hasTextForm c then (1, ⟨.other, none⟩) else beforeSequence c (f.sequence.select .text)

/-- The columns of a text, and what it is to the character before it. -/
def measure : List Char → Int × Following
  | [] => (0, ⟨.other, none⟩)
  | c :: cs =>
    let rest := measure cs
    let here := before c rest.2
    (here.1 + rest.1, here.2)

/-! ## No column is taken back twice -/

theorem Sequence.reserve_nonneg (s : Sequence) : 0 ≤ s.reserve := by
  cases s with
  | emoji e => exact e.reserve_nonneg
  | ligature l => exact l.reserve_nonneg
  | _ => exact Int.le_refl 0

theorem Sequence.reserve_select_le (style : Style) (s : Sequence) :
    (s.select style).reserve ≤ s.reserve := by
  unfold select
  split
  · exact Int.le_refl _
  · split <;> decide
  · split <;> decide
  · exact s.reserve_nonneg

theorem Sequence.reserve_ofChar_le (c : Char) : (ofChar c).2.reserve ≤ (ofChar c).1 := by
  unfold ofChar
  split
  · exact Emoji.reserve_le_columns _
  · exact Ligature.reserve_le_one _
  · split
    · decide
    · split
      · decide
      · split <;> decide

theorem Sequence.reserve_before?_le {c : Char} {s s' : Sequence} {n : Int}
    (h : s.before? c = some (n, s')) : s'.reserve ≤ n + s.reserve := by
  cases s with
  | emoji e =>
    obtain ⟨⟨m, e'⟩, he, heq⟩ := Option.map_eq_some_iff.1 h
    cases heq
    exact Emoji.reserve_before?_le he
  | ligature l =>
    obtain ⟨⟨m, l'⟩, hl, heq⟩ := Option.map_eq_some_iff.1 h
    cases heq
    have key := Ligature.reserve_before?_le hl
    cases l' <;> exact key
  | other => cases h
  | lineFeed => cases h

/-- In front of a sequence no more columns are taken back than it holds in reserve. -/
theorem reserve_beforeSequence_le (c : Char) (s : Sequence) :
    (beforeSequence c s).2.sequence.reserve ≤ (beforeSequence c s).1 + s.reserve := by
  have hs := s.reserve_nonneg
  unfold beforeSequence
  split
  · split
    · exact Int.add_nonneg (Int.le_refl 0) hs
    · split
      · exact Int.add_nonneg (Int.le_refl 0) hs
      · exact Int.add_nonneg (by decide) hs
  · split
    · rename_i style _
      have := Sequence.reserve_select_le style s
      simpa using this
    · cases h : s.before? c with
      | none =>
        have := Sequence.reserve_ofChar_le c
        simp only [Option.getD_none]
        omega
      | some r => exact Sequence.reserve_before?_le h

/-- In front of what follows, no more columns are taken back than it holds in reserve. -/
theorem reserve_before_le (c : Char) (f : Following) :
    (before c f).2.sequence.reserve ≤ (before c f).1 + f.sequence.reserve := by
  have hs := f.sequence.reserve_nonneg
  have hselect := Sequence.reserve_select_le .text f.sequence
  have hseq := reserve_beforeSequence_le c (f.sequence.select .text)
  unfold before
  split
  · exact reserve_beforeSequence_le c f.sequence
  · split
    · exact Int.add_nonneg (by split <;> decide) hs
    · omega
  · split
    · exact Int.add_nonneg (by decide) hs
    · omega

/-- A text has at least the columns that a character before it may take back. -/
theorem reserve_le_measure (cs : List Char) :
    (measure cs).2.sequence.reserve ≤ (measure cs).1 := by
  induction cs with
  | nil => exact Int.le_refl 0
  | cons c cs ih =>
    have := reserve_before_le c (measure cs).2
    simp only [measure]
    omega

/-- The columns of a text are never negative. -/
theorem measure_nonneg (cs : List Char) : 0 ≤ (measure cs).1 :=
  Int.le_trans (Sequence.reserve_nonneg _) (reserve_le_measure cs)

end Width

/-! ## The width of a text -/

/-- The number of columns of a text. -/
def width (cs : List Char) : Nat :=
  (Width.measure cs).1.toNat

@[simp]
theorem width_nil : width [] = 0 :=
  rfl

/-- A text is measured from its end. -/
theorem width_cons (c : Char) (cs : List Char) :
    (width (c :: cs) : Int) = (Width.before c (Width.measure cs).2).1 + width cs := by
  rw [width, width, Int.toNat_of_nonneg (Width.measure_nonneg _),
    Int.toNat_of_nonneg (Width.measure_nonneg _), Width.measure]

end Mustache.Text
