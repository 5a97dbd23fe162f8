import Mustache.Node

/-!
# Programs

A template is rendered from a list of instructions.  They differ from the tree
in that text which was cut at newlines is whole again, and in that dotted names
are cut at their dots.
-/

namespace Mustache

/-! ## References -/

/-- A name that stands for a value.  The name of one dot has the empty path and stands for the
innermost value itself. -/
structure Reference where
  name : Fragment
  path : List Fragment
deriving DecidableEq, Repr

/-- Cuts a name at its dots. -/
def Reference.ofName (name : Fragment) : Reference where
  name := name
  path := if name.text = ['.'] then [] else Fragment.split '.' name.start name.text

/-- The segments of the path. -/
def Reference.segments (r : Reference) : List String :=
  r.path.map Fragment.toString

/-! ## Instructions -/

/-- An instruction of a program. -/
inductive Instr where
  | text (whole : Fragment)
  | interpolation (escaping : Escaping) (target : Reference)
  /-- Renders its body as its value says; a lambda is given the raw text of the body instead. -/
  | block (polarity : Polarity) (target : Reference) (raw : Fragment) (body : List Instr)
  | inclusion (name indent : String)

namespace Instr

/-- Puts an instruction in front of others; text that touches the following text joins it. -/
def cons : Instr → List Instr → List Instr
  | text f, text g :: is =>
    if f.stop = g.start then text (f.append g) :: is else text f :: text g :: is
  | i, is => i :: is

mutual

/-- The instruction for a node of the tree of a source. -/
def ofNode (source : List Char) : Node → Instr
  | .text whole => text whole
  | .interpolation escaping name _ => interpolation escaping (Reference.ofName name)
  | .block polarity name opening closing body =>
    block polarity (Reference.ofName name)
      (Fragment.between source opening.stop closing.start) (ofNodes source body)
  | .inclusion name indent _ => inclusion name.toString (String.ofList indent)

/-- The instructions for the nodes of a body. -/
def ofNodes (source : List Char) : List Node → List Instr
  | [] => []
  | n :: ns => cons (ofNode source n) (ofNodes source ns)

end

/-- The literal text that the instruction writes by itself. -/
def literal : Instr → List Char
  | text f => f.text
  | _ => []

end Instr

end Mustache
