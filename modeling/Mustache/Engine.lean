import Mustache.Datum
import Mustache.Render.Program
import Mustache.Value.Quoted

/-!
# Engines

An engine holds the sources of its partials and keeps what it has compiled:
templates by their source, partials by name and indent.

Main results:

- Theorem `Engine.render_empty`: an empty template has an empty text and no effect.
-/

namespace Mustache

/-! ## Engines -/

/-- A template engine. -/
structure Engine where
  /-- The pair of markers from which every template and every partial is read. -/
  delimiters : Delimiters
  /-- How deep inclusions and lambda texts may be nested. -/
  limit : Nat := 64
  /-- The sources of the partials. -/
  partials : Dictionary String := []
  /-- The compiled templates, by their source. -/
  templates : Dictionary Template := []
  compiled : CompiledPartials := []

namespace Engine

/-- An engine with the given source of a partial, in place of an earlier one. -/
def addPartial (e : Engine) (name source : String) : Engine :=
  { e with
    partials := Dictionary.insert name source e.partials
    compiled := Dictionary.erase name e.compiled }

/-- An engine with the given partials only. -/
def setPartials (e : Engine) (partials : Dictionary String) : Engine :=
  { e with partials := partials, compiled := [] }

/-- What renderings of the engine depend on. -/
def setting {σ : Type} (e : Engine) (host : Host σ) : Setting σ :=
  ⟨e.limit, host, Render.partialTemplate e.delimiters e.partials⟩

/-! ## Activity -/

/-- An engine at work: its own state and that of its host, what it has reported and what it has
asked. -/
structure Activity (σ : Type) where
  engine : Engine
  host : σ
  events : List Event := []
  calls : List Call := []

/-- An operation of an engine. -/
abbrev Action (σ α : Type) := EStateM Error (Activity σ) α

variable {σ : Type}

/-- Reports an event. -/
def report (e : Event) : Action σ Unit :=
  modify fun a => { a with events := a.events ++ [e] }

/-- Changes the engine. -/
def update (f : Engine → Engine) : Action σ Unit :=
  modify fun a => { a with engine := f a.engine }

/-- Adds a partial, in place of an earlier one of its name. -/
def putPartial (name source : String) : Action σ Unit := do
  report (.addingPartial name)
  update fun e => e.addPartial name source

/-- Replaces all partials. -/
def replacePartials (partials : List (String × String)) : Action σ Unit := do
  let partials := Dictionary.ofList partials
  report (.replacingPartials partials.length)
  update fun e => e.setPartials partials

/-! ## Compilation -/

/-- Compiles a template, which the engine does not keep. -/
def compile (e : Engine) (source : String) : Except Error Template :=
  Template.compile e.delimiters source

/-- The compiled template of a source, which is kept once it is compiled. -/
def templateOf (source : String) : Action σ Template := do
  let a ← get
  match Dictionary.get? a.engine.templates source with
  | some t => pure t
  | none =>
    report (.compilingTemplate (Event.sizeOf source))
    match a.engine.compile source with
    | .error e => throw e
    | .ok t =>
      update fun e => { e with templates := Dictionary.insert source t e.templates }
      pure t

/-! ## Rendering -/

/-- The progress of a rendering that starts now and writes to the given sink. -/
def Activity.begin (a : Activity σ) (sink : Sink) : Progress σ :=
  ⟨a.engine.compiled, a.events, a.calls, a.host, sink⟩

/-- The activity after a rendering has made some progress. -/
def Activity.resume (a : Activity σ) (p : Progress σ) : Activity σ where
  engine := { a.engine with compiled := p.compiled }
  host := p.host
  events := p.events
  calls := p.calls

/-- Renders a compiled template to a sink.  The sink is also given back if rendering fails. -/
def draw (host : Host σ) (t : Template) (view : Value) (sink : Sink) :
    Action σ (Option Error × Sink) := fun a =>
  match t.render (a.engine.setting host) view (a.begin sink) with
  | .ok _ p => .ok (none, p.sink) (a.resume p)
  | .error e p => .ok (some e, p.sink) (a.resume p)

/-- The text of a compiled template. -/
def renderTemplate (host : Host σ) (t : Template) (view : Value) : Action σ String := do
  match ← draw host t view .empty with
  | (none, sink) => pure sink.text
  | (some e, _) => throw e

/-- The text of a template. -/
def render (host : Host σ) (source : String) (view : Value) : Action σ String := do
  if source.isEmpty then
    pure ""
  else
    let t ← templateOf source
    renderTemplate host t view

/-- The text of a template, before which the partials are replaced if new ones are given. -/
def renderWith (host : Host σ) (source : String) (view : Value)
    (partials : Option (List (String × String))) : Action σ String := do
  match partials with
  | none => pure ()
  | some partials => replacePartials partials
  render host source view

/-- An empty template has an empty text and no effect. -/
@[simp]
theorem render_empty (host : Host σ) (view : Value) : render host "" view = pure "" := by
  simp [render]

end Engine

/-! ## Engines as they are shown -/

/-- The name of a kind and its named parts between braces. -/
def withFields (name : String) (fields : List (String × String)) : String :=
  name ++ " \x7b " ++ commaSeparated (fields.map fun field => field.1 ++ ": " ++ field.2) ++ " \x7d"

/-- How a pair of markers is shown. -/
def Delimiters.quoted (pair : Delimiters) : String :=
  withFields "Delimiter"
    [("left", Text.quoted pair.left.toString), ("right", Text.quoted pair.right.toString)]

/-- How an engine is shown: its partials by name, and how many templates it keeps. -/
def Engine.quoted (e : Engine) : String :=
  withFields "Engine"
    [("delimiter", e.delimiters.quoted),
      ("max_include_depth", toString e.limit),
      ("partials", bracketed (e.partials.keys.map Text.quoted)),
      ("templates", toString e.templates.length)]

/-- How a compiled template of an engine is shown. -/
def Engine.quotedTemplate (e : Engine) : String :=
  withFields "Template" [("engine", e.quoted), ("template", "<compiled>")]

end Mustache
