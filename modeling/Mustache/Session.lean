import Mustache.Engine

/-!
# Sessions

In a session one engine answers requests one after the other.  Templates that
were compiled by request are kept under a name until the limit of the engine is
changed.
-/

namespace Mustache

/-! ## Requests and answers -/

/-- A view, which is used as it is or converted as structured data first. -/
inductive View where
  | direct (v : Value)
  | structured (v : Value)

/-- The value of a view. -/
def View.value : View → Except Error Value
  | direct v => .ok v
  | structured v =>
    match v.converted with
    | .ok v => .ok v
    | .error cause => .error (.conversion cause)

/-- What can be asked of an engine. -/
inductive Request where
  | addPartial (name source : String)
  | setPartials (partials : List (String × String))
  | render (source : String) (view : View)
  /-- Renders a template after the partials have been replaced, if new ones are given. -/
  | renderWith (source : String) (view : Value) (partials : Option (List (String × String)))
  /-- Compiles a template and keeps it under a name. -/
  | compile (name source : String)
  | sourceOf (name : String)
  | renderCompiled (name : String) (view : View)
  | writeCompiled (name : String) (view : View) (device : Device)
  | setLimit (limit : Nat)
  | showEngine
  | showTemplate (name : String)

/-- The answer to a request. -/
inductive Answer where
  | done
  | text (s : String)
  | failed (e : Error)
  /-- Something was written to a device, which has taken these bytes. -/
  | written (failure : Option Error) (bytes : List UInt8)
  | unknownTemplate (name : String)
deriving DecidableEq, Repr

/-- An answer, with what the engine has reported and asked on the way. -/
structure Reply where
  answer : Answer
  events : List Event
  calls : List Call
deriving DecidableEq, Repr

/-! ## Sessions -/

/-- An engine, its host, and the compiled templates that are kept by name. -/
structure Session (σ : Type) where
  engine : Engine
  host : σ
  templates : Dictionary Template := []

namespace Session

variable {σ : Type}

/-- The session after the engine has been at work, with an answer to what came of it. -/
def finish (s : Session σ) (answer : Answer) (a : Engine.Activity σ) : Reply × Session σ :=
  (⟨answer, a.events, a.calls⟩, { s with engine := a.engine, host := a.host })

/-- Lets the engine work, and gives an answer to what comes of it. -/
def perform {α : Type} (s : Session σ) (action : Engine.Action σ α)
    (answer : Except Error α → Answer) : Reply × Session σ :=
  match action ⟨s.engine, s.host, [], []⟩ with
  | .ok result a => s.finish (answer (.ok result)) a
  | .error e a => s.finish (answer (.error e)) a

/-- An answer for which the engine has nothing to do. -/
def reply (s : Session σ) (answer : Answer) : Reply × Session σ :=
  (⟨answer, [], []⟩, s)

/-- The answer that a text or an error is. -/
def textAnswer : Except Error String → Answer
  | .ok s => .text s
  | .error e => .failed e

/-- The answer to an operation without a result. -/
def doneAnswer : Except Error Unit → Answer
  | .ok _ => .done
  | .error e => .failed e

/-- The answer to writing. -/
def writtenAnswer : Except Error (Option Error × Sink) → Answer
  | .ok (failure, sink) => .written failure sink.bytes
  | .error e => .failed e

/-- Answers a request about a compiled template that is kept by name. -/
def withTemplate (s : Session σ) (name : String) (f : Template → Reply × Session σ) :
    Reply × Session σ :=
  match Dictionary.get? s.templates name with
  | none => s.reply (.unknownTemplate name)
  | some t => f t

/-- Answers a request. -/
def answer (host : Host σ) (s : Session σ) : Request → Reply × Session σ
  | .addPartial name source => s.perform (Engine.putPartial name source) doneAnswer
  | .setPartials partials => s.perform (Engine.replacePartials partials) doneAnswer
  | .render source view =>
    match view.value with
    | .error e => s.reply (.failed e)
    | .ok v => s.perform (Engine.render host source v) textAnswer
  | .renderWith source view partials =>
    s.perform (Engine.renderWith host source view partials) textAnswer
  | .compile name source =>
    match s.engine.compile source with
    | .error e => s.reply (.failed e)
    | .ok t => reply { s with templates := Dictionary.insert name t s.templates } .done
  | .sourceOf name => s.withTemplate name fun t => s.reply (.text t.source)
  | .renderCompiled name view =>
    s.withTemplate name fun t =>
      match view.value with
      | .error e => s.reply (.failed e)
      | .ok v => s.perform (Engine.renderTemplate host t v) textAnswer
  | .writeCompiled name view device =>
    s.withTemplate name fun t =>
      match view.value with
      | .error e => s.reply (.written (some e) [])
      | .ok v => s.perform (Engine.draw host t v (.device device)) writtenAnswer
  | .setLimit limit =>
    reply { s with engine := { s.engine with limit := limit }, templates := [] } .done
  | .showEngine => s.reply (.text s.engine.quoted)
  | .showTemplate name => s.withTemplate name fun _ => s.reply (.text s.engine.quotedTemplate)

/-- Answers requests one after the other. -/
def answerAll (host : Host σ) (s : Session σ) : List Request → List Reply × Session σ
  | [] => ([], s)
  | r :: rs =>
    let first := s.answer host r
    let rest := first.2.answerAll host rs
    (first.1 :: rest.1, rest.2)

end Session

end Mustache
