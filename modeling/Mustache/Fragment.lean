import Mustache.Text.Blank
import Mustache.Text.Bytes

/-!
# Fragments of a template

A fragment is a piece of a template together with the place where it stands.
Its span is derived from the text, so a fragment never disagrees with the
characters that it covers.

Main results:

- Theorem `Fragment.slice_of_append`: the span of a fragment cuts the fragment
  out of every source in which it stands.
-/

namespace Mustache

/-- A stretch of a source, from one byte offset up to another. -/
structure Span where
  start : Nat
  stop : Nat
deriving DecidableEq, Repr

/-- A piece of a source that begins at a byte offset. -/
structure Fragment where
  start : Nat
  text : List Char
deriving DecidableEq, Repr

namespace Fragment

/-- The offset just after the fragment. -/
def stop (f : Fragment) : Nat :=
  f.start + Text.byteLength f.text

/-- The stretch that the fragment covers. -/
def span (f : Fragment) : Span :=
  ⟨f.start, f.stop⟩

/-- The text of the fragment as a string. -/
def toString (f : Fragment) : String :=
  String.ofList f.text

/-- The fragment that covers two fragments of which the second follows the first. -/
def append (f g : Fragment) : Fragment :=
  ⟨f.start, f.text ++ g.text⟩

/-- The fragment of a source between two offsets. -/
def between (source : List Char) (start stop : Nat) : Fragment :=
  ⟨start, Text.slice start stop source⟩

/-- The span of a fragment cuts it out of a source in which it stands. -/
theorem slice_of_append (before after : List Char) (f : Fragment)
    (h : f.start = Text.byteLength before) :
    Text.slice f.span.start f.span.stop (before ++ (f.text ++ after)) = f.text := by
  simp only [span, stop, h]
  exact Text.slice_append before f.text after

/-- The fragment without the blanks that surround its text. -/
def trimmed (f : Fragment) : Fragment :=
  ⟨f.start + Text.byteLength (f.text.takeWhile Text.isBlank), Text.trim f.text⟩

/-- The pieces of a text, which begins at an offset, between the occurrences of a separator. -/
def split (separator : Char) (start : Nat) : List Char → List Fragment
  | [] => [⟨start, []⟩]
  | c :: cs =>
    if c = separator then
      ⟨start, []⟩ :: split separator (start + c.utf8Size) cs
    else
      match split separator (start + c.utf8Size) cs with
      | [] => [⟨start, [c]⟩]
      | f :: fs => ⟨start, c :: f.text⟩ :: fs

end Fragment

end Mustache
