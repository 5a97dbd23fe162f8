import Mustache.Session

/-!
# Sessions that keep nothing compiled

A bare session answers the requests of a session, but holds on to sources only.
A template is compiled whenever it is rendered, and a partial whenever it is
included.  What a bare session answers therefore depends on its sources, its
limit and the state of its host, and on nothing that was rendered before.
-/

namespace Mustache

variable {σ : Type}

/-- The partial of a name with an indent, compiled from its source each time. -/
def Render.freshTemplate (delimiters : Delimiters) (partials : Dictionary String)
    (name indent : String) : Render σ (Option Template) :=
  match Dictionary.get? partials name with
  | none => pure none
  | some source => do
    let t ← ofExcept (Template.compile delimiters (Template.indented indent source))
    pure (some t)

/-- Compiling a partial each time changes nothing in the progress of a rendering. -/
theorem Render.freshTemplate_apply (delimiters : Delimiters) (partials : Dictionary String)
    (name indent : String) (p : Progress σ) :
    freshTemplate delimiters partials name indent p =
      match Dictionary.get? partials name with
      | none => .ok none p
      | some source =>
        match Template.compile delimiters (Template.indented indent source) with
        | .ok t => .ok (some t) p
        | .error e => .error e p := by
  unfold freshTemplate
  cases Dictionary.get? partials name with
  | none => rfl
  | some source =>
    dsimp only
    cases Template.compile delimiters (Template.indented indent source) <;> rfl

/-- A session that holds on to sources only. -/
structure BareSession (σ : Type) where
  delimiters : Delimiters
  limit : Nat
  partials : Dictionary String := []
  host : σ
  /-- The sources of the templates that were compiled by request. -/
  sources : Dictionary String := []

/-- A session with a new engine. -/
def Session.start (delimiters : Delimiters) (limit : Nat) (host : σ) : Session σ :=
  ⟨{ delimiters := delimiters, limit := limit }, host, []⟩

/-- A bare session without partials. -/
def BareSession.start (delimiters : Delimiters) (limit : Nat) (host : σ) : BareSession σ :=
  { delimiters := delimiters, limit := limit, host := host }

/-- What comes of a rendering, and what was asked on the way. -/
structure Rendered (σ : Type) where
  failure : Option Error
  sink : Sink
  calls : List Call
  host : σ

/-- The output, unless rendering has failed. -/
def Rendered.answer (r : Rendered σ) : Answer :=
  match r.failure with
  | none => .text r.sink.text
  | some e => .failed e

/-- The bytes of the output, and the failure if there is one. -/
def Rendered.writtenAnswer (r : Rendered σ) : Answer :=
  .written r.failure r.sink.bytes

/-- The output or the failure, together with a state that was reached. -/
def Rendered.outcome {τ : Type} (r : Rendered σ) (reached : τ) : EStateM.Result Error τ String :=
  match r.failure with
  | none => .ok r.sink.text reached
  | some e => .error e reached

/-- The answer to a request as far as it is determined by what a bare session holds. -/
structure BareReply where
  answer : Option Answer
  calls : List Call

/-- A reply agrees with a bare one if it gives the same answer, where the bare one gives any, and
asks the same questions. -/
structure BareReply.Agrees (bare : BareReply) (reply : Reply) : Prop where
  answer : ∀ a, bare.answer = some a → reply.answer = a
  calls : reply.calls = bare.calls

namespace BareSession

/-! ## Rendering -/

/-- What renderings of the session depend on. -/
def setting (s : BareSession σ) (host : Host σ) : Setting σ :=
  ⟨s.limit, host, Render.freshTemplate s.delimiters s.partials⟩

/-- Renders a compiled template to a sink. -/
def draw (host : Host σ) (s : BareSession σ) (t : Template) (view : Value) (sink : Sink) :
    Rendered σ :=
  match t.render (s.setting host) view ⟨[], [], [], s.host, sink⟩ with
  | .ok _ p => ⟨none, p.sink, p.calls, p.host⟩
  | .error e p => ⟨some e, p.sink, p.calls, p.host⟩

/-- Compiles a source and renders it to a sink. -/
def drawSource (host : Host σ) (s : BareSession σ) (source : String) (view : Value)
    (sink : Sink) : Rendered σ :=
  match Template.compile s.delimiters source with
  | .error e => ⟨some e, sink, [], s.host⟩
  | .ok t => s.draw host t view sink

/-- Renders a source to a text; the empty source has the empty text. -/
def render (host : Host σ) (s : BareSession σ) (source : String) (view : Value) : Rendered σ :=
  if source.isEmpty then ⟨none, .empty, [], s.host⟩ else s.drawSource host source view .empty

/-! ## Requests -/

/-- The session after a rendering. -/
def after (s : BareSession σ) (r : Rendered σ) : BareSession σ :=
  { s with host := r.host }

/-- The session with other partials, if some are given. -/
def replacing (s : BareSession σ) : Option (List (String × String)) → BareSession σ
  | none => s
  | some partials => { s with partials := Dictionary.ofList partials }

/-- An answer for which nothing is asked. -/
def reply (s : BareSession σ) (answer : Option Answer) : BareReply × BareSession σ :=
  (⟨answer, []⟩, s)

/-- Answers a request about a source that is kept under a name. -/
def withSource (s : BareSession σ) (name : String)
    (f : String → BareReply × BareSession σ) : BareReply × BareSession σ :=
  match Dictionary.get? s.sources name with
  | none => s.reply (some (.unknownTemplate name))
  | some source => f source

/-- Answers a request.  How an engine is shown depends on what it keeps, so a bare session does
not say. -/
def answer (host : Host σ) (s : BareSession σ) : Request → BareReply × BareSession σ
  | .addPartial name source =>
    reply { s with partials := Dictionary.insert name source s.partials } (some .done)
  | .setPartials partials =>
    reply { s with partials := Dictionary.ofList partials } (some .done)
  | .render source view =>
    match view.value with
    | .error e => s.reply (some (.failed e))
    | .ok v =>
      let r := s.render host source v
      (⟨some r.answer, r.calls⟩, s.after r)
  | .renderWith source view partials =>
    let s := s.replacing partials
    let r := s.render host source view
    (⟨some r.answer, r.calls⟩, s.after r)
  | .compile name source =>
    match Template.compile s.delimiters source with
    | .error e => s.reply (some (.failed e))
    | .ok _ => reply { s with sources := Dictionary.insert name source s.sources } (some .done)
  | .sourceOf name => s.withSource name fun source => s.reply (some (.text source))
  | .renderCompiled name view =>
    s.withSource name fun source =>
      match view.value with
      | .error e => s.reply (some (.failed e))
      | .ok v =>
        let r := s.drawSource host source v .empty
        (⟨some r.answer, r.calls⟩, s.after r)
  | .writeCompiled name view device =>
    s.withSource name fun source =>
      match view.value with
      | .error e => s.reply (some (.written (some e) []))
      | .ok v =>
        let r := s.drawSource host source v (.device device)
        (⟨some r.writtenAnswer, r.calls⟩, s.after r)
  | .setLimit limit => reply { s with limit := limit, sources := [] } (some .done)
  | .showEngine | .showTemplate _ => s.reply none

/-- Answers requests one after the other. -/
def answerAll (host : Host σ) (s : BareSession σ) :
    List Request → List BareReply × BareSession σ
  | [] => ([], s)
  | r :: rs =>
    let first := s.answer host r
    let rest := first.2.answerAll host rs
    (first.1 :: rest.1, rest.2)

theorem delimiters_withSource {b : BareSession σ} {name : String}
    {f : String → BareReply × BareSession σ}
    (h : ∀ source, (f source).2.delimiters = b.delimiters) :
    (b.withSource name f).2.delimiters = b.delimiters := by
  unfold withSource
  split
  · rfl
  · exact h _

/-- The delimiters of a session are the same after every request. -/
theorem delimiters_answer (host : Host σ) (b : BareSession σ) (r : Request) :
    (b.answer host r).2.delimiters = b.delimiters := by
  cases r with
  | addPartial | setPartials | setLimit | showEngine | showTemplate => rfl
  | render source view =>
    unfold answer
    dsimp only
    cases view.value <;> rfl
  | renderWith source view partials => cases partials <;> rfl
  | compile name source =>
    unfold answer
    dsimp only
    cases Template.compile b.delimiters source <;> rfl
  | sourceOf name => exact delimiters_withSource fun _ => rfl
  | renderCompiled name view | writeCompiled name view device =>
    apply delimiters_withSource
    intro source
    cases view.value <;> rfl

theorem delimiters_answerAll (host : Host σ) (b : BareSession σ) (rs : List Request) :
    (b.answerAll host rs).2.delimiters = b.delimiters := by
  induction rs generalizing b with
  | nil => rfl
  | cons r rs ih =>
    show ((b.answer host r).2.answerAll host rs).2.delimiters = b.delimiters
    rw [ih, delimiters_answer]

end BareSession

end Mustache
