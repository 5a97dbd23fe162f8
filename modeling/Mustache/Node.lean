import Mustache.Line

/-!
# The tree of a template

Sections nest.  The tokens of a template are folded into a tree by keeping the
sections that are open: an open tag starts a new body, and a close tag turns
the innermost body into a section of the body around it.

Main results:

- Theorem `Nesting.run_append`: tokens are folded one after the other.
-/

namespace Mustache

/-! ## Nodes -/

/-- A node of the tree.  Comments and set delimiter tags have none. -/
inductive Node where
  | text (whole : Fragment)
  | interpolation (escaping : Escaping) (name whole : Fragment)
  | block (polarity : Polarity) (name opening closing : Fragment) (body : List Node)
  | inclusion (name : Fragment) (indent : List Char) (whole : Fragment)

/-! ## Nesting -/

/-- A section whose close tag is still to come. -/
structure OpenSection where
  polarity : Polarity
  name : Fragment
  opening : Fragment
  /-- The nodes before the section in the body around it, the last one first. -/
  before : List Node

/-- The open sections, the innermost one first, and the nodes of the innermost body, the last one
first. -/
structure Nesting where
  opened : List OpenSection
  nodes : List Node

namespace Nesting

/-- Nothing has been read. -/
def empty : Nesting :=
  ⟨[], []⟩

/-- Adds a node to the innermost body. -/
def push (n : Nesting) (node : Node) : Nesting :=
  { n with nodes := node :: n.nodes }

/-- Closes the innermost section, which has to have the name of the close tag. -/
def close (n : Nesting) (name closing : Fragment) : Except Flaw Nesting :=
  match n.opened with
  | [] => .error ⟨.unmatchedClose, closing.span⟩
  | s :: outer =>
    if s.name.text = name.text then
      .ok ⟨outer, .block s.polarity s.name s.opening closing n.nodes.reverse :: s.before⟩
    else
      .error ⟨.mismatchedClose s.name.toString, closing.span⟩

/-- Takes up the next token. -/
def step (n : Nesting) (t : Token) : Except Flaw Nesting :=
  match t.kind with
  | .text => .ok (n.push (.text t.whole))
  | .interpolation escaping name => .ok (n.push (.interpolation escaping name t.whole))
  | .inclusion name indent => .ok (n.push (.inclusion name indent t.whole))
  | .comment | .setDelimiters => .ok n
  | .sectionOpen polarity name => .ok ⟨⟨polarity, name, t.whole, n.nodes⟩ :: n.opened, []⟩
  | .sectionClose name => n.close name t.whole

/-- Takes up tokens one after the other. -/
def run (n : Nesting) : List Token → Except Flaw Nesting
  | [] => .ok n
  | t :: ts => (n.step t).bind fun next => next.run ts

/-- The finished tree, for which no section may be open. -/
def finish (n : Nesting) : Except Flaw (List Node) :=
  match n.opened with
  | [] => .ok n.nodes.reverse
  | s :: _ => .error ⟨.unclosedSection s.name.toString, s.opening.span⟩

/-- Tokens in a row are taken up one after the other. -/
theorem run_append (n : Nesting) (xs ys : List Token) :
    n.run (xs ++ ys) = (n.run xs).bind fun next => next.run ys := by
  induction xs generalizing n with
  | nil => rfl
  | cons t ts ih =>
    simp only [List.cons_append, run]
    cases n.step t with
    | error => rfl
    | ok next => exact ih next

end Nesting

/-- The tree of a template, given the tokens that take part in it. -/
def Node.ofTokens (tokens : List Token) : Except Flaw (List Node) :=
  (Nesting.empty.run tokens).bind Nesting.finish

end Mustache
