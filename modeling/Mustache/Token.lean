import Mustache.Flaw
import Mustache.Lexeme

/-!
# Tokens

A token is a lexeme at its place in the template.  It knows whether it begins
a source line, and the name that its tag holds.

Main results:

- Theorem `flatMap_text_ofLexemes`: placing lexemes changes none of their characters.
- Theorem `Token.flatMap_text_of_ofSource`: the tokens of a template, one after
  the other, are its characters.
-/

namespace Mustache

/-! ## Kinds of tokens -/

/-- Whether the text of a name is escaped when it is written. -/
inductive Escaping where
  | escaped
  | unescaped
deriving DecidableEq, Repr

/-- Whether a section is rendered for a truthy or for a falsey value. -/
inductive Polarity where
  | upright
  | inverted
deriving DecidableEq, Repr

/-- What a token stands for.  An inclusion on a line of its own has the indent of that line. -/
inductive TokenKind where
  | text
  | interpolation (escaping : Escaping) (name : Fragment)
  | sectionOpen (polarity : Polarity) (name : Fragment)
  | sectionClose (name : Fragment)
  | inclusion (name : Fragment) (indent : List Char)
  | comment
  | setDelimiters
deriving DecidableEq, Repr

/-- Whether a tag of this kind may have a line of its own. -/
def TokenKind.isStandalone : TokenKind → Bool
  | text | interpolation .. => false
  | sectionOpen .. | sectionClose _ | inclusion .. | comment | setDelimiters => true

/-- A lexeme at its place in the template. -/
structure Token where
  kind : TokenKind
  /-- All that the token covers, markers included. -/
  whole : Fragment
  /-- Whether the token stands at the beginning of a source line. -/
  beginsLine : Bool
deriving DecidableEq, Repr

namespace Token

/-! ## Placing lexemes -/

/-- The kind of a tag with a given name. -/
def kindOfTag (sigil : Sigil) (name : Fragment) : TokenKind :=
  match sigil with
  | .plain => .interpolation .escaped name
  | .ampersand | .brace => .interpolation .unescaped name
  | .hash => .sectionOpen .upright name
  | .caret => .sectionOpen .inverted name
  | .slash => .sectionClose name
  | .angle => .inclusion name []
  | .bang => .comment
  | .equals => .setDelimiters

/-- The kind of a lexeme that begins at an offset. -/
def kindOfLexeme (start : Nat) : Lexeme → TokenKind
  | .text _ => .text
  | .tag pair sigil body =>
    let bodyStart := start + Text.byteLength pair.left.chars + Text.byteLength sigil.mark
    kindOfTag sigil (Fragment.trimmed ⟨bodyStart, body⟩)

/-- The tokens of consecutive lexemes of which the first begins at an offset. -/
def ofLexemes (start : Nat) (beginsLine : Bool) : List Lexeme → List Token
  | [] => []
  | l :: ls =>
    let whole : Fragment := ⟨start, l.chars⟩
    ⟨kindOfLexeme start l, whole, beginsLine⟩ ::
      ofLexemes whole.stop (l.chars.getLast? == some '\n') ls

/-- Placing lexemes changes none of their characters. -/
theorem flatMap_text_ofLexemes (start : Nat) (beginsLine : Bool) (ls : List Lexeme) :
    (ofLexemes start beginsLine ls).flatMap (fun t => t.whole.text) =
      ls.flatMap Lexeme.chars := by
  induction ls generalizing start beginsLine with
  | nil => rfl
  | cons l ls ih => simp [ofLexemes, ih]

/-! ## Tokens of a template -/

/-- The tokens of a template and the pair of markers that is live at its end. -/
structure Stream where
  tokens : List Token
  live : Delimiters
deriving DecidableEq

/-- The pair that is live at the end of a template, or the flaw at which reading ended. -/
def liveAtEnd (stop : Nat) : Ending → Except Flaw Delimiters
  | .finished live => .ok live
  | .unclosed pair sigil =>
    .error ⟨.unclosedTag (String.ofList (sigil.terminator pair)),
      Fragment.span ⟨stop, pair.left.chars⟩⟩
  | .badMarkers pair body =>
    .error ⟨.badMarkers, Fragment.span ⟨stop, (Lexeme.tag pair .equals body).chars⟩⟩

/-- The tokens of what was read, provided that it was read to its end. -/
def ofScan (read : Scan) : Except Flaw Stream :=
  (liveAtEnd (Text.byteLength (read.lexemes.flatMap Lexeme.chars)) read.ending).map
    fun live => ⟨ofLexemes 0 true read.lexemes, live⟩

/-- The tokens of a template that is read from a given pair of markers. -/
def ofSource (pair : Delimiters) (source : List Char) : Except Flaw Stream :=
  ofScan (Scan.read pair source)

/-- Tokens come from a reading that is finished, and are its lexemes in place. -/
theorem ofScan_eq_ok {read : Scan} {stream : Stream} (h : ofScan read = .ok stream) :
    read.ending = .finished stream.live ∧ stream.tokens = ofLexemes 0 true read.lexemes := by
  obtain ⟨lexemes, ending⟩ := read
  cases ending <;> cases h
  exact ⟨rfl, rfl⟩

/-- The tokens of a template are its characters. -/
theorem flatMap_text_of_ofSource {pair : Delimiters} {source : List Char} {stream : Stream}
    (h : ofSource pair source = .ok stream) :
    stream.tokens.flatMap (fun t => t.whole.text) = source := by
  obtain ⟨hending, htokens⟩ := ofScan_eq_ok h
  rw [htokens, flatMap_text_ofLexemes, Scan.flatMap_chars_read hending]

end Token

end Mustache
