import Mustache.Delimiters
import Mustache.Text.Search

/-!
# Lexemes

A template is read from left to right as a sequence of lexemes: stretches of
text, which end at a newline or in front of a tag, and tags.  A lexeme carries
no position, so what is read at a place depends only on the live pair of
markers and on the characters that follow.

Main results:

- Theorem `Step.append_of_read_eq_lexeme`: one step splits off the characters of its
  lexeme, and there is at least one.
- Theorem `Scan.flatMap_chars_read`: the lexemes of a template without a fault are
  its characters.
-/

namespace Mustache

/-! ## Tags -/

/-- The kind of a tag, told by the character after its left marker. -/
inductive Sigil where
  | plain
  | ampersand
  | brace
  | hash
  | caret
  | slash
  | angle
  | bang
  | equals
deriving DecidableEq, Repr

namespace Sigil

/-- The characters that stand for the kind. -/
def mark : Sigil → List Char
  | plain => []
  | ampersand => ['&']
  | brace => ['{']
  | hash => ['#']
  | caret => ['^']
  | slash => ['/']
  | angle => ['>']
  | bang => ['!']
  | equals => ['=']

/-- The kind of tag that a character announces. -/
def ofChar? : Char → Option Sigil
  | '&' => some ampersand
  | '{' => some brace
  | '#' => some hash
  | '^' => some caret
  | '/' => some slash
  | '>' => some angle
  | '!' => some bang
  | '=' => some equals
  | _ => none

/-- Reads the kind of a tag after its left marker; a tag without a mark is plain. -/
def read : List Char → Sigil × List Char
  | [] => (plain, [])
  | c :: cs =>
    match ofChar? c with
    | some sigil => (sigil, cs)
    | none => (plain, c :: cs)

/-- The mark of the kind that a character announces is that character. -/
theorem mark_of_ofChar? {c : Char} {sigil : Sigil} (h : ofChar? c = some sigil) :
    sigil.mark = [c] := by
  unfold ofChar? at h
  split at h <;> cases h <;> rfl

/-- Reading the kind of a tag takes away nothing but its mark. -/
theorem mark_append_of_read (cs : List Char) : (read cs).1.mark ++ (read cs).2 = cs := by
  cases cs with
  | nil => rfl
  | cons c cs =>
    cases h : ofChar? c with
    | none => simp [read, h, mark]
    | some sigil => simp [read, h, mark_of_ofChar? h]

/-- The text that ends a tag of this kind. -/
def terminator (sigil : Sigil) (pair : Delimiters) : List Char :=
  match sigil with
  | brace => '}' :: pair.right.chars
  | equals => '=' :: pair.right.chars
  | _ => pair.right.chars

end Sigil

/-! ## Lexemes -/

/-- A stretch of text or a tag, which stands between the markers of its pair. -/
inductive Lexeme where
  | text (chars : List Char)
  | tag (pair : Delimiters) (sigil : Sigil) (body : List Char)
deriving DecidableEq

/-- The characters that the lexeme covers. -/
def Lexeme.chars : Lexeme → List Char
  | text chars => chars
  | tag pair sigil body =>
    pair.left.chars ++ (sigil.mark ++ (body ++ sigil.terminator pair))

/-- How reading comes to its end. -/
inductive Ending where
  /-- Everything was read, and this pair is live at the end. -/
  | finished (live : Delimiters)
  /-- A tag is opened whose terminator does not follow. -/
  | unclosed (pair : Delimiters) (sigil : Sigil)
  /-- A set delimiter tag does not name two usable markers. -/
  | badMarkers (pair : Delimiters) (body : List Char)
deriving DecidableEq

/-- What stands at the beginning of a text: an ending, or a lexeme with the pair that is live
after it and the characters that follow it. -/
inductive Step where
  | ended (ending : Ending)
  | lexeme (l : Lexeme) (live : Delimiters) (rest : List Char)

/-! ## One step -/

namespace Step

/-- The text before the next left marker or through the next newline, and what follows it. -/
def textRun (left : List Char) : List Char → List Char × List Char
  | [] => ([], [])
  | c :: cs =>
    if c = '\n' then
      ([c], cs)
    else if left.isPrefixOf (c :: cs) then
      ([], c :: cs)
    else
      let run := textRun left cs
      (c :: run.1, run.2)

/-- Reads a tag whose left marker and mark have been read. -/
def readTag (pair : Delimiters) (sigil : Sigil) (inner : List Char) : Step :=
  match Text.breakOn (sigil.terminator pair) inner with
  | none => .ended (.unclosed pair sigil)
  | some (body, rest) =>
    if sigil = .equals then
      match Delimiters.ofBody? body with
      | none => .ended (.badMarkers pair body)
      | some live => .lexeme (.tag pair sigil body) live rest
    else
      .lexeme (.tag pair sigil body) pair rest

/-- Reads what stands at the beginning of a text under a live pair of markers. -/
def read (pair : Delimiters) : List Char → Step
  | [] => .ended (.finished pair)
  | c :: cs =>
    if pair.left.chars.isPrefixOf (c :: cs) then
      let tag := Sigil.read ((c :: cs).drop pair.left.chars.length)
      readTag pair tag.1 tag.2
    else
      let run := textRun pair.left.chars (c :: cs)
      .lexeme (.text run.1) pair run.2

/-- A run of text and what follows it are the whole text. -/
theorem textRun_append (left cs : List Char) : (textRun left cs).1 ++ (textRun left cs).2 = cs := by
  induction cs with
  | nil => rfl
  | cons c cs ih =>
    rw [textRun]
    split
    · rfl
    · split
      · rfl
      · simpa using ih

/-- Where no tag begins, a run of text has a character. -/
theorem textRun_ne_nil {left : List Char} {c : Char} {cs : List Char}
    (h : ¬left.isPrefixOf (c :: cs)) : (textRun left (c :: cs)).1 ≠ [] := by
  rw [textRun]
  split
  · simp
  · simp

/-- The characters of a tag are those that were read for it. -/
theorem chars_append_of_readTag_eq_lexeme {pair live : Delimiters} {sigil : Sigil}
    {inner rest : List Char} {l : Lexeme} (h : readTag pair sigil inner = .lexeme l live rest) :
    l.chars ++ rest = pair.left.chars ++ (sigil.mark ++ inner) := by
  have key : ∀ body, Text.breakOn (sigil.terminator pair) inner = some (body, rest) →
      (Lexeme.tag pair sigil body).chars ++ rest = pair.left.chars ++ (sigil.mark ++ inner) := by
    intro body hb
    simp [Lexeme.chars, Text.breakOn_eq_some hb]
  unfold readTag at h
  split at h
  · cases h
  · rename_i body rest' hb
    split at h
    · split at h
      · cases h
      · cases h
        exact key _ hb
    · cases h
      exact key _ hb

/-- A tag has a character. -/
theorem chars_ne_nil_of_readTag_eq_lexeme {pair live : Delimiters} {sigil : Sigil}
    {inner rest : List Char} {l : Lexeme} (h : readTag pair sigil inner = .lexeme l live rest) :
    l.chars ≠ [] := by
  have key : ∀ body, (Lexeme.tag pair sigil body).chars ≠ [] := fun body => by
    simp [Lexeme.chars, pair.left.usable.1]
  unfold readTag at h
  split at h
  · cases h
  · split at h
    · split at h
      · cases h
      · cases h
        exact key _
    · cases h
      exact key _

/-- A step splits off the characters of its lexeme, and there is at least one. -/
theorem append_of_read_eq_lexeme {pair live : Delimiters} {cs rest : List Char} {l : Lexeme}
    (h : read pair cs = .lexeme l live rest) : cs = l.chars ++ rest ∧ l.chars ≠ [] := by
  cases cs with
  | nil => cases h
  | cons c cs =>
    rw [read] at h
    split at h
    · rename_i hp
      obtain ⟨inner, hinner⟩ := List.isPrefixOf_iff_prefix.1 hp
      rw [← hinner, List.drop_left] at h
      rw [← hinner, chars_append_of_readTag_eq_lexeme h, Sigil.mark_append_of_read]
      exact ⟨rfl, chars_ne_nil_of_readTag_eq_lexeme h⟩
    · rename_i hp
      cases h
      exact ⟨(textRun_append _ _).symm, textRun_ne_nil hp⟩

/-- A step leaves less to be read. -/
theorem length_lt_of_read_eq_lexeme {pair live : Delimiters} {cs rest : List Char} {l : Lexeme}
    (h : read pair cs = .lexeme l live rest) : rest.length < cs.length := by
  obtain ⟨heq, hne⟩ := append_of_read_eq_lexeme h
  have := List.length_pos_iff.2 hne
  rw [heq, List.length_append]
  omega

/-- A tag is never the end of a template. -/
theorem readTag_ne_finished (pair live : Delimiters) (sigil : Sigil) (inner : List Char) :
    readTag pair sigil inner ≠ .ended (.finished live) := by
  unfold readTag
  split
  · simp
  · split
    · split <;> simp
    · simp

/-- Reading is finished only where nothing is left, and under the live pair. -/
theorem eq_nil_of_read_eq_finished {pair live : Delimiters} {cs : List Char}
    (h : read pair cs = .ended (.finished live)) : cs = [] ∧ live = pair := by
  cases cs with
  | nil =>
    cases h
    exact ⟨rfl, rfl⟩
  | cons c cs =>
    rw [read] at h
    split at h
    · exact absurd h (readTag_ne_finished _ _ _ _)
    · cases h

end Step

/-! ## Reading a whole template -/

/-- The lexemes of a template as far as it can be read, and how reading ended. -/
structure Scan where
  lexemes : List Lexeme
  ending : Ending

namespace Scan

/-- Puts a lexeme in front of what follows it. -/
def cons (l : Lexeme) (s : Scan) : Scan :=
  ⟨l :: s.lexemes, s.ending⟩

/-- Reads a template from a place where the given pair is live. -/
def read (pair : Delimiters) (cs : List Char) : Scan :=
  match _h : Step.read pair cs with
  | .ended ending => ⟨[], ending⟩
  | .lexeme l live rest => (read live rest).cons l
termination_by cs.length
decreasing_by exact Step.length_lt_of_read_eq_lexeme (by assumption)

/-- Reading ends where a step comes to an ending. -/
theorem read_of_ended {pair : Delimiters} {cs : List Char} {ending : Ending}
    (h : Step.read pair cs = .ended ending) : read pair cs = ⟨[], ending⟩ := by
  rw [read]
  split <;> simp_all

/-- Reading goes on after the lexeme of a step. -/
theorem read_of_lexeme {pair live : Delimiters} {cs rest : List Char} {l : Lexeme}
    (h : Step.read pair cs = .lexeme l live rest) : read pair cs = (read live rest).cons l := by
  rw [read]
  split <;> simp_all

/-- The lexemes of a template that is read to its end are its characters. -/
theorem flatMap_chars_read {pair live : Delimiters} {cs : List Char}
    (h : (read pair cs).ending = .finished live) :
    (read pair cs).lexemes.flatMap Lexeme.chars = cs := by
  fun_induction read pair cs with
  | case1 pair cs ending hstep =>
    obtain rfl : ending = .finished live := h
    simp [(Step.eq_nil_of_read_eq_finished hstep).1]
  | case2 pair cs l live' rest hstep ih =>
    rw [(Step.append_of_read_eq_lexeme hstep).1, Scan.cons, List.flatMap_cons, ih h]

end Scan

end Mustache
