import Mustache.Text.Blank

/-!
# Delimiters

A tag stands between two markers.  An engine starts every template with one
pair of markers, and a set delimiter tag replaces the pair for the rest of its
template.

Main results:

- Theorem `Marker.exists_cons`: a marker has a first character, and it is no blank.
- Theorem `Delimiters.ofMarkers?_eq_some_iff`: a pair exists exactly for two
  usable markers.
-/

namespace Mustache

/-! ## Markers -/

/-- A usable marker is not empty and holds neither a blank nor an equals sign. -/
def IsMarker (cs : List Char) : Prop :=
  cs ≠ [] ∧ ∀ c ∈ cs, c ≠ '=' ∧ Text.isBlank c = false

instance (cs : List Char) : Decidable (IsMarker cs) :=
  @instDecidableAnd _ _ inferInstance (List.decidableBAll _ cs)

/-- The text on one side of a tag. -/
structure Marker where
  chars : List Char
  usable : IsMarker chars
deriving DecidableEq

namespace Marker

/-- A marker begins with a character that is no blank. -/
theorem exists_cons (m : Marker) : ∃ c cs, m.chars = c :: cs ∧ Text.isBlank c = false := by
  obtain ⟨chars, hne, hall⟩ := m
  cases chars with
  | nil => exact absurd rfl hne
  | cons c cs => exact ⟨c, cs, rfl, (hall c List.mem_cons_self).2⟩

/-- A marker has a character. -/
theorem length_pos (m : Marker) : 0 < m.chars.length :=
  List.length_pos_iff.2 m.usable.1

/-- The marker as a string. -/
def toString (m : Marker) : String :=
  String.ofList m.chars

end Marker

/-! ## Pairs of markers -/

/-- The markers that open and close a tag. -/
structure Delimiters where
  left : Marker
  right : Marker
deriving DecidableEq

namespace Delimiters

/-- The pair that an engine uses unless it is given another one. -/
def standard : Delimiters where
  left := ⟨['{', '{'], by decide⟩
  right := ⟨['}', '}'], by decide⟩

instance : Inhabited Delimiters :=
  ⟨standard⟩

/-- The pair of two texts, if both are usable markers. -/
def ofMarkers? (left right : List Char) : Option Delimiters :=
  if h : IsMarker left ∧ IsMarker right then some ⟨⟨left, h.1⟩, ⟨right, h.2⟩⟩ else none

/-- A pair consists of the two texts that it is made of. -/
theorem ofMarkers?_eq_some_iff {left right : List Char} {pair : Delimiters} :
    ofMarkers? left right = some pair ↔ left = pair.left.chars ∧ right = pair.right.chars := by
  constructor
  · intro h
    rw [ofMarkers?] at h
    split at h
    · cases h
      exact ⟨rfl, rfl⟩
    · cases h
  · rintro ⟨rfl, rfl⟩
    rw [ofMarkers?, dif_pos ⟨pair.left.usable, pair.right.usable⟩]

/-- The pair that the body of a set delimiter tag names: two markers between blanks. -/
def ofBody? (body : List Char) : Option Delimiters :=
  match Text.words body with
  | [left, right] => ofMarkers? left right
  | _ => none

end Delimiters

end Mustache
