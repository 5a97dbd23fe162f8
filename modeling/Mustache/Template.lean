import Mustache.Error
import Mustache.Program

/-!
# Compiled templates

A source is compiled in one go: it is cut into tokens, standalone lines are
settled, sections are nested, and the tree becomes a program.

Main results:

- Theorem `Template.compile_of_ofTokens`: a source is compiled from its tree.
- Theorem `Template.source_of_compile`: a compiled template keeps its source.
- Theorem `Template.indentLines_nil`: an empty indent changes nothing.
-/

namespace Mustache

/-- A template that is ready to be rendered. -/
structure Template where
  source : String
  /-- The pair of markers that is live at the end of the source. -/
  live : Delimiters
  program : List Instr

namespace Template

/-! ## Compilation -/

/-- The tree of a source and the pair of markers that is live at its end. -/
def tree (pair : Delimiters) (source : List Char) : Except Flaw (List Node × Delimiters) :=
  (Token.ofSource pair source).bind fun stream =>
    (Node.ofTokens (Token.settle stream.tokens)).map fun nodes => (nodes, stream.live)

/-- Compiles a source that is read from a given pair of markers. -/
def compile (pair : Delimiters) (source : String) : Except Error Template :=
  match tree pair source.toList with
  | .ok (nodes, live) => .ok ⟨source, live, Instr.ofNodes source.toList nodes⟩
  | .error flaw => .error (.flawed ⟨flaw, source, none⟩)

/-- Settled tokens that nest are the tree of their source. -/
theorem tree_of_ofTokens {pair : Delimiters} {source : List Char} {stream : Token.Stream}
    {nodes : List Node} (h : Token.ofSource pair source = .ok stream)
    (hnodes : Node.ofTokens (Token.settle stream.tokens) = .ok nodes) :
    tree pair source = .ok (nodes, stream.live) := by
  rw [tree, h]
  show (Node.ofTokens (Token.settle stream.tokens)).map _ = _
  rw [hnodes]
  rfl

/-- A source is compiled from its tree. -/
theorem compile_of_ofTokens {pair : Delimiters} {source : String} {stream : Token.Stream}
    {nodes : List Node} (h : Token.ofSource pair source.toList = .ok stream)
    (hnodes : Node.ofTokens (Token.settle stream.tokens) = .ok nodes) :
    compile pair source = .ok ⟨source, stream.live, Instr.ofNodes source.toList nodes⟩ := by
  unfold compile
  rw [tree_of_ofTokens h hnodes]

/-- A compiled template keeps its source. -/
theorem source_of_compile {pair : Delimiters} {source : String} {t : Template}
    (h : compile pair source = .ok t) : t.source = source := by
  unfold compile at h
  split at h
  · cases h
    rfl
  · cases h

/-! ## Indentation -/

/-- Puts an indent in front of every line, the first character being the first of a line or not. -/
def indentFrom (indent : List Char) (atLineStart : Bool) : List Char → List Char
  | [] => []
  | c :: cs => (if atLineStart then indent else []) ++ c :: indentFrom indent (c == '\n') cs

/-- Puts an indent in front of every line of a text. -/
def indentLines (indent text : List Char) : List Char :=
  indentFrom indent true text

@[simp]
theorem indentFrom_nil (atLineStart : Bool) (text : List Char) :
    indentFrom [] atLineStart text = text := by
  induction text generalizing atLineStart with
  | nil => rfl
  | cons c cs ih => simp [indentFrom, ih]

@[simp]
theorem indentLines_nil (text : List Char) : indentLines [] text = text :=
  indentFrom_nil true text

/-- A source with an indent in front of every line. -/
def indented (indent source : String) : String :=
  String.ofList (indentLines indent.toList source.toList)

end Template

end Mustache
