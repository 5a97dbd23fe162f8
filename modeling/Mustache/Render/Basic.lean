import Mustache.Context
import Mustache.Sink
import Mustache.Template
import Mustache.Text.Quoted

/-!
# The setting of a rendering

A rendering reads its setting, which stays as it is, and goes through states of
progress: what it has written, which lambdas it has asked, which partials it has
compiled, and what it has reported of this.  An error ends it, and its progress up
to there stands.

Main results:

- Theorem `emit_nil`: an empty piece has no effect.
-/

namespace Mustache

/-! ## Lambdas of a host -/

/-- The host of an engine knows the texts of lambdas.  A text may depend on what the host has been
asked before. -/
structure Host (σ : Type) where
  answer : Lambda → Option String → σ → String × σ

/-- A question to a host; a lambda that takes no text is asked without an argument. -/
structure Call where
  lambda : Lambda
  argument : Option String
deriving DecidableEq, Repr

/-- The question to a lambda where the raw text of its section is at hand. -/
def Call.ofLambda (l : Lambda) (raw : String) : Call where
  lambda := l
  argument :=
    match l.kind with
    | .interpolation => none
    | .block => some raw

/-! ## Events -/

/-- A step of an engine that is reported: which texts it compiles, and which partials it is given
or misses. -/
inductive Event where
  | addingPartial (name : String)
  | replacingPartials (count : Nat)
  | compilingTemplate (size : Nat)
  | compilingPartial (name : String) (size : Nat) (indent : String)
  | missingPartial (name : String)
  | expandingLambda (size : Nat)
deriving DecidableEq, Repr

namespace Event

/-- The size of a text in reports. -/
def sizeOf (s : String) : Nat :=
  Text.byteLength s.toList

/-- The level and the words of a report. -/
def message : Event → String
  | addingPartial name => "DEBUG adding partial `" ++ name ++ "`"
  | replacingPartials count => "DEBUG replacing partials (" ++ toString count ++ " entries)"
  | compilingTemplate size => "DEBUG compiling template (" ++ toString size ++ " bytes)"
  | compilingPartial name size indent =>
    "DEBUG compiling partial `" ++ name ++ "` (" ++ toString size ++ " bytes, indent " ++
      Text.quoted indent ++ ")"
  | missingPartial name => "DEBUG partial `" ++ name ++ "` not found"
  | expandingLambda size => "TRACE expanding lambda output (" ++ toString size ++ " bytes)"

end Event

/-! ## Setting and progress -/

/-- The compiled partials, by name and by indent. -/
abbrev CompiledPartials := Dictionary (Dictionary Template)

/-- The compiled partial of a name and an indent. -/
def CompiledPartials.find? (compiled : CompiledPartials) (name indent : String) :
    Option Template :=
  (Dictionary.get? compiled name).bind fun byIndent => Dictionary.get? byIndent indent

/-- Keeps the compiled partial of a name and an indent. -/
def CompiledPartials.add (compiled : CompiledPartials) (name indent : String) (t : Template) :
    CompiledPartials :=
  Dictionary.insert name
    (Dictionary.insert indent t ((Dictionary.get? compiled name).getD [])) compiled

/-- What a rendering has done so far. -/
structure Progress (σ : Type) where
  compiled : CompiledPartials
  events : List Event
  calls : List Call
  host : σ
  sink : Sink

/-- A part of a rendering. -/
abbrev Render (σ α : Type) := EStateM Error (Progress σ) α

/-- What a rendering depends on and does not change. -/
structure Setting (σ : Type) where
  /-- How deep inclusions and lambda texts may be nested. -/
  limit : Nat
  host : Host σ
  /-- The template of a partial, by its name and its indent, if there is one of this name. -/
  load : String → String → Render σ (Option Template)

namespace Render

variable {σ α : Type}

/-! ## Effects -/

/-- Writes a piece of output. -/
def emit (piece : List Char) : Render σ Unit := fun p =>
  match p.sink.refusal? piece with
  | none => .ok () { p with sink := p.sink.write piece }
  | some reason => .error (.device reason) { p with sink := p.sink.write piece }

/-- Writes pieces of output one after the other. -/
def emitAll : List (List Char) → Render σ Unit
  | [] => pure ()
  | piece :: pieces => do
    emit piece
    emitAll pieces

/-- Reports an event. -/
def report (e : Event) : Render σ Unit :=
  modify fun p => { p with events := p.events ++ [e] }

/-- Asks the host for the text of a lambda. -/
def ask (host : Host σ) (call : Call) : Render σ String := fun p =>
  let answer := host.answer call.lambda call.argument p.host
  .ok answer.1 { p with calls := p.calls ++ [call], host := answer.2 }

/-- The result of an operation that may fail. -/
def ofExcept : Except Error α → Render σ α
  | .ok a => pure a
  | .error e => throw e

/-- Collects the text that a part of a rendering writes, and lets the sink alone. -/
def captured (part : Render σ Unit) : Render σ String := fun p =>
  match part { p with sink := .empty } with
  | .ok _ q => .ok q.sink.text { q with sink := p.sink }
  | .error e q => .error e { q with sink := p.sink }

/-- Changes the error of a part of a rendering. -/
def mapError (f : Error → Error) (part : Render σ α) : Render σ α := fun p =>
  match part p with
  | .ok a q => .ok a q
  | .error e q => .error (f e) q

/-- An empty piece has no effect. -/
@[simp]
theorem emit_nil : emit (σ := σ) [] = pure () := by
  funext p
  cases h : p.sink <;> simp [emit, Sink.refusal?, Sink.write, pure, EStateM.pure, h] <;>
    cases p <;> simp_all

@[simp]
theorem mapError_pure (f : Error → Error) (a : α) :
    mapError (σ := σ) f (pure a) = pure a :=
  rfl

end Render

end Mustache
