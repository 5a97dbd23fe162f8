import Mustache.Html
import Mustache.Render.Basic

/-!
# Evaluating a template on its tree

What a template means can be said on its tree: each node contributes a text, and
the text of a body is what its nodes contribute in order.  Evaluation knows
nothing of instructions, of pieces of output or of compiled partials.  It reads
names as plain texts, compiles nothing ahead, and reads the source of a partial
again at every inclusion.

A failure of evaluation shows the text that it concerns in place of a span.

Main results:

- Theorem `Evaluation.ofTree_eq_nodes`: a tree is evaluated node by node.
-/

namespace Mustache

/-! ## Names -/

/-- The member that the innermost of some values has under a name. -/
def searchMember (name : String) : List Value → Option Value
  | [] => none
  | v :: outer =>
    match v.lookup name with
    | some member => some member
    | none => searchMember name outer

/-- The member that is reached step by step from a value, each step in the member before it. -/
def descend (v : Value) : List String → Option Value
  | [] => some v
  | step :: steps =>
    match v.lookup step with
    | some member => descend member steps
    | none => none

/-- The value of a name.  A dot alone is the innermost value; else the part before the first dot is
searched for from the innermost value outwards, and the other parts lead on from there. -/
def Context.valueOf (ctx : Context) (name : List Char) : Option Value :=
  if name = ['.'] then
    some ctx.current
  else
    match (name.splitOn '.').map String.ofList with
    | [] => none
    | first :: steps =>
      match searchMember first ctx.values with
      | some v => descend v steps
      | none => none

/-- The value, unless it is missing or falsey. -/
def truthy? : Option Value → Option Value
  | none | some .null | some (.bool false) | some (.list []) | some (.map []) => none
  | some v => some v

/-! ## Failures -/

/-- Why an evaluation fails: a fault of a text, with the part of the text that it concerns, or the
limit on templates inside templates. -/
inductive Failure where
  | flawed (fault : Fault) (excerpt : List Char)
  | includeLimit (limit : Nat)

/-- The failure that an error reports, if it is one of a template. -/
def Error.failure? : Error → Option Failure
  | flawed finding =>
    some (.flawed finding.flaw.fault (Text.slice finding.flaw.span.start finding.flaw.span.stop
      finding.source.toList))
  | includeLimit limit => some (.includeLimit limit)
  | device _ | conversion _ => none

/-! ## Evaluation -/

/-- The tree of a source, and the pair of markers from which texts of its lambdas are read. -/
structure Tree where
  source : List Char
  nodes : List Node
  live : Delimiters

/-- The tree of a source, which is read from a given pair of markers. -/
def Tree.ofSource (pair : Delimiters) (source : List Char) : Except Failure Tree :=
  match Template.tree pair source with
  | .ok (nodes, live) => .ok ⟨source, nodes, live⟩
  | .error flaw =>
    .error (.flawed flaw.fault (Text.slice flaw.span.start flaw.span.stop source))

/-- What an evaluation depends on and does not change. -/
structure World (σ : Type) where
  delimiters : Delimiters
  partials : Dictionary String
  limit : Nat
  host : Host σ

/-- The questions to the host so far, and the state in which they have left it. -/
structure Inquiry (σ : Type) where
  host : σ
  calls : List Call

/-- An evaluation gives a result or fails, and may ask the host on the way. -/
abbrev Evaluation (σ α : Type) := EStateM Failure (Inquiry σ) α

namespace Evaluation

variable {σ α : Type}

/-- How a tree inside the current one is evaluated. -/
abbrev Inner (σ : Type) := Tree → Context → Evaluation σ (List Char)

/-- Asks the host for the text of a lambda. -/
def consult (host : Host σ) (l : Lambda) (raw : String) : Evaluation σ String := fun i =>
  let call := Call.ofLambda l raw
  let answer := host.answer call.lambda call.argument i.host
  .ok answer.1 ⟨answer.2, i.calls ++ [call]⟩

/-- The texts of some items in order, put in a row. -/
def inOrder (f : α → Evaluation σ (List Char)) : List α → Evaluation σ (List Char)
  | [] => pure []
  | x :: xs => do
    let first ← f x
    let rest ← inOrder f xs
    pure (first ++ rest)

/-- A text as it is written under an escaping. -/
def quote (escaping : Escaping) (text : List Char) : List Char :=
  match escaping with
  | .escaped => Html.escape text
  | .unescaped => text

/-- The text of a value; a collection has none. -/
def textOf (escaping : Escaping) : Value → Except Collection (List Char)
  | .text s => .ok (quote escaping s.toList)
  | .list _ => .error .list
  | .map _ => .error .map
  | v => .ok v.pieces.flatten

/-- Evaluates the text of a lambda, which is read from the pair of markers that is live at the end
of the text around it.  The limit is looked at first. -/
def expansion (w : World σ) (inner : Option (Inner σ)) (tree : Tree) (ctx : Context)
    (text : String) : Evaluation σ (List Char) :=
  if text.isEmpty then
    pure []
  else
    match inner, Tree.ofSource tree.live text.toList with
    | none, _ => throw (.includeLimit w.limit)
    | some _, .error failure => throw failure
    | some evaluate, .ok expanded => evaluate expanded ctx

/-- Evaluates a partial, of which every line is indented.  A partial that does not exist contributes
nothing.  The limit is looked at last. -/
def inclusion (w : World σ) (inner : Option (Inner σ)) (ctx : Context) (name : String)
    (indent : List Char) : Evaluation σ (List Char) :=
  match Dictionary.get? w.partials name with
  | none => pure []
  | some source =>
    match Tree.ofSource w.delimiters (Template.indentLines indent source.toList) with
    | .error failure => throw failure
    | .ok tree =>
      match inner with
      | none => throw (.includeLimit w.limit)
      | some evaluate => evaluate tree ctx

mutual

/-- The text that a node contributes. -/
def node (w : World σ) (inner : Option (Inner σ)) (tree : Tree) (ctx : Context) :
    Node → Evaluation σ (List Char)
  | .text whole => pure whole.text
  | .interpolation escaping name _ =>
    match truthy? (ctx.valueOf name.text) with
    | none => pure []
    | some (.lambda l) => do
      let text ← consult w.host l ""
      let output ← expansion w inner tree ctx text
      pure (quote escaping output)
    | some v =>
      match textOf escaping v with
      | .ok text => pure text
      | .error found => throw (.flawed (.notRenderable found) name.text)
  | .block .upright name opening closing body =>
    match truthy? (ctx.valueOf name.text) with
    | none => pure []
    | some (.lambda l) => do
      let text ← consult w.host l
        (String.ofList (Text.slice opening.stop closing.start tree.source))
      expansion w inner tree ctx text
    | some (.list items) => inOrder (fun item => nodes w inner tree (ctx.push item) body) items
    | some v => nodes w inner tree (ctx.push v) body
  | .block .inverted name _ _ body =>
    match truthy? (ctx.valueOf name.text) with
    | none => nodes w inner tree ctx body
    | some _ => pure []
  | .inclusion name indent _ => inclusion w inner ctx name.toString indent

/-- The text that the nodes of a body contribute in order. -/
def nodes (w : World σ) (inner : Option (Inner σ)) (tree : Tree) (ctx : Context) :
    List Node → Evaluation σ (List Char)
  | [] => pure []
  | n :: ns => do
    let first ← node w inner tree ctx n
    let rest ← nodes w inner tree ctx ns
    pure (first ++ rest)

end

/-- The text of a tree inside which others may be nested to a given depth. -/
def ofTree (w : World σ) : Nat → Inner σ
  | 0 => fun tree ctx => nodes w none tree ctx tree.nodes
  | depth + 1 => fun tree ctx => nodes w (some (ofTree w depth)) tree ctx tree.nodes

/-- How trees inside a tree are evaluated, inside which others may be nested to a given depth. -/
def innerAt (w : World σ) : Nat → Option (Inner σ)
  | 0 => none
  | depth + 1 => some (ofTree w depth)

/-- The text of a tree is that of its nodes. -/
theorem ofTree_eq_nodes (w : World σ) (depth : Nat) (tree : Tree) (ctx : Context) :
    ofTree w depth tree ctx = nodes w (innerAt w depth) tree ctx tree.nodes := by
  cases depth <;> rfl

/-- The text of a template against a view. -/
def ofTemplate (w : World σ) (source : String) (view : Value) : Evaluation σ (List Char) :=
  match Tree.ofSource w.delimiters source.toList with
  | .error failure => throw failure
  | .ok tree => ofTree w w.limit tree (Context.ofView view)

end Evaluation

end Mustache
