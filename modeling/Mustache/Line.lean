import Mustache.Token

/-!
# Standalone lines

A line that holds nothing but blanks and tags such as section tags, inclusions
and comments leaves no trace of itself: its text is taken away.  An inclusion
on such a line takes over the blanks before it as its indent.

Main results:

- Theorem `Token.settleLine_of_not_isStandaloneLine`: a line that is not
  standalone stays as it is.
- Theorem `Token.kind_ne_text_of_mem_dropText`: no text is left on a
  standalone line.
-/

namespace Mustache.Token

/-! ## Lines -/

/-- The tokens cut in front of each one that begins a source line. -/
def lines (tokens : List Token) : List (List Token) :=
  tokens.splitBy fun _ next => !next.beginsLine

/-- Whether the token may stand on a standalone line. -/
def fitsStandaloneLine (t : Token) : Bool :=
  match t.kind with
  | .text => t.whole.text.all Text.isBlank
  | kind => kind.isStandalone

/-- A standalone line has a tag that may stand alone, and nothing else but blanks. -/
def isStandaloneLine (line : List Token) : Bool :=
  line.any (fun t => t.kind.isStandalone) && line.all fitsStandaloneLine

/-! ## Taking text away -/

/-- The tags of a line, each inclusion indented by the text that stood before it. -/
def dropText (indent : List Char) : List Token → List Token
  | [] => []
  | t :: ts =>
    match t.kind with
    | .text => dropText (indent ++ t.whole.text) ts
    | .inclusion name _ => { t with kind := .inclusion name indent } :: dropText indent ts
    | _ => t :: dropText indent ts

/-- The tokens of a line that take part in the template. -/
def settleLine (line : List Token) : List Token :=
  if isStandaloneLine line then dropText [] line else line

/-- The tokens of a template that take part in it. -/
def settle (tokens : List Token) : List Token :=
  (lines tokens).flatMap settleLine

/-- A line that is not standalone stays as it is. -/
theorem settleLine_of_not_isStandaloneLine {line : List Token}
    (h : isStandaloneLine line = false) : settleLine line = line := by
  simp [settleLine, h]

/-- No text is left on a standalone line. -/
theorem kind_ne_text_of_mem_dropText {indent : List Char} {line : List Token} {t : Token}
    (h : t ∈ dropText indent line) : t.kind ≠ .text := by
  induction line generalizing indent with
  | nil => simp [dropText] at h
  | cons u us ih =>
    rw [dropText] at h
    split at h
    · exact ih h
    · rcases List.mem_cons.1 h with rfl | h
      · simp
      · exact ih h
    · rcases List.mem_cons.1 h with rfl | h
      · assumption
      · exact ih h

end Mustache.Token
