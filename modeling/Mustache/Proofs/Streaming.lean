import Mustache.Proofs.Caching

/-!
# Streams of output

What a rendering writes does not depend on where it goes.  There is one stream of
pieces, and every sink is offered this stream, up to the first piece that it does
not take whole.  There the rendering ends, with the words of the sink, and with no
question asked that would not have been asked otherwise.  Captured output is no
part of the stream.

Main results:

- Theorem `Sink.bytes_writeAll_prefix`: a sink holds the beginning of the stream.
- Theorem `Render.Streams.bind`: streams follow each other.
- Theorem `Render.streams_runTemplate`: every template has a stream.
- Theorem `Engine.draw_device_cut`: what a device gets is cut out of the stream
  that a buffer gets.
-/

namespace Mustache

/-! ## Offering pieces to a sink -/

namespace Sink

/-- The sink after some pieces, up to the first one that it does not take whole. -/
def writeAll : Sink → List (List Char) → Sink
  | sink, [] => sink
  | sink, piece :: pieces =>
    match sink.refusal? piece with
    | none => (sink.write piece).writeAll pieces
    | some _ => sink.write piece

/-- Why the sink does not take all of some pieces, if there is one that it does not take whole. -/
def refusalAmong? : Sink → List (List Char) → Option String
  | _, [] => none
  | sink, piece :: pieces =>
    match sink.refusal? piece with
    | none => (sink.write piece).refusalAmong? pieces
    | some reason => some reason

/-- After pieces that it has taken, a sink is offered the following ones. -/
theorem writeAll_append {sink : Sink} {xs : List (List Char)}
    (h : sink.refusalAmong? xs = none) (ys : List (List Char)) :
    sink.writeAll (xs ++ ys) = (sink.writeAll xs).writeAll ys := by
  induction xs generalizing sink with
  | nil => rfl
  | cons x xs ih =>
    rw [refusalAmong?] at h
    rw [List.cons_append, writeAll, writeAll]
    cases hx : sink.refusal? x with
    | none =>
      rw [hx] at h
      exact ih h
    | some reason =>
      rw [hx] at h
      cases h

theorem refusalAmong?_append {sink : Sink} {xs : List (List Char)}
    (h : sink.refusalAmong? xs = none) (ys : List (List Char)) :
    sink.refusalAmong? (xs ++ ys) = (sink.writeAll xs).refusalAmong? ys := by
  induction xs generalizing sink with
  | nil => rfl
  | cons x xs ih =>
    rw [refusalAmong?] at h
    rw [List.cons_append, refusalAmong?, writeAll]
    cases hx : sink.refusal? x with
    | none =>
      rw [hx] at h
      exact ih h
    | some reason =>
      rw [hx] at h
      cases h

/-- Behind a piece that it does not take whole, nothing is offered to a sink. -/
theorem offer_append_of_refusalAmong? {sink : Sink} {xs : List (List Char)} {reason : String}
    (h : sink.refusalAmong? xs = some reason) (ys : List (List Char)) :
    sink.refusalAmong? (xs ++ ys) = some reason ∧ sink.writeAll (xs ++ ys) = sink.writeAll xs := by
  induction xs generalizing sink with
  | nil => cases h
  | cons x xs ih =>
    rw [refusalAmong?] at h
    rw [List.cons_append, refusalAmong?, writeAll, writeAll]
    cases hx : sink.refusal? x with
    | none =>
      rw [hx] at h
      exact ih h
    | some other =>
      rw [hx] at h
      exact ⟨h, rfl⟩

/-! ## Bytes -/

/-- Of a piece, a sink takes the beginning. -/
theorem bytes_write_prefix (sink : Sink) (piece : List Char) :
    (sink.write piece).bytes <+: sink.bytes ++ Text.encode piece := by
  cases sink with
  | buffer text => simp [write, bytes]
  | device d =>
    simp only [write, bytes]
    split
    · exact List.prefix_append _ _
    · exact (List.prefix_append_right_inj _).2 (d.taken_prefix _)

/-- A piece that is not refused is taken whole. -/
theorem bytes_write {sink : Sink} {piece : List Char} (h : sink.refusal? piece = none) :
    (sink.write piece).bytes = sink.bytes ++ Text.encode piece := by
  cases sink with
  | buffer text => simp [write, bytes]
  | device d =>
    rw [refusal?] at h
    simp only [write, bytes]
    by_cases hempty : piece.isEmpty
    · rw [if_pos hempty, List.isEmpty_iff.1 hempty]
      simp [Text.encode]
    · have hwhole : d.takesWhole (Text.encode piece) = true := by
        simpa [hempty] using h
      rw [if_neg hempty, Device.offer, eq_of_beq hwhole]

/-- Of some pieces, a sink takes the beginning. -/
theorem bytes_writeAll_prefix (sink : Sink) (pieces : List (List Char)) :
    (sink.writeAll pieces).bytes <+: sink.bytes ++ Text.encode pieces.flatten := by
  induction pieces generalizing sink with
  | nil => simp [writeAll]
  | cons piece pieces ih =>
    rw [writeAll, List.flatten_cons, Text.encode_append, ← List.append_assoc]
    cases hpiece : sink.refusal? piece with
    | none =>
      have hrest := ih (sink.write piece)
      rwa [bytes_write hpiece] at hrest
    | some reason => exact (sink.bytes_write_prefix piece).trans (List.prefix_append _ _)

/-- Pieces that are not refused are taken whole. -/
theorem bytes_writeAll {sink : Sink} {pieces : List (List Char)}
    (h : sink.refusalAmong? pieces = none) :
    (sink.writeAll pieces).bytes = sink.bytes ++ Text.encode pieces.flatten := by
  induction pieces generalizing sink with
  | nil => simp [writeAll, Text.encode]
  | cons piece pieces ih =>
    rw [refusalAmong?] at h
    rw [writeAll, List.flatten_cons, Text.encode_append, ← List.append_assoc]
    cases hpiece : sink.refusal? piece with
    | none =>
      rw [hpiece] at h
      rw [← bytes_write hpiece]
      exact ih h
    | some reason =>
      rw [hpiece] at h
      cases h

/-! ## Buffers -/

/-- A buffer takes everything. -/
theorem refusalAmong?_buffer (text : String) (pieces : List (List Char)) :
    (buffer text).refusalAmong? pieces = none := by
  induction pieces generalizing text with
  | nil => rfl
  | cons piece pieces ih =>
    rw [refusalAmong?, refusal?_buffer]
    exact ih _

/-- A buffer holds all pieces in a row. -/
theorem writeAll_buffer (text : String) (pieces : List (List Char)) :
    (buffer text).writeAll pieces = buffer (text ++ String.ofList pieces.flatten) := by
  induction pieces generalizing text with
  | nil => simp [writeAll]
  | cons piece pieces ih =>
    rw [writeAll, refusal?_buffer]
    refine (ih _).trans ?_
    rw [List.flatten_cons, String.ofList_append, String.append_assoc]

/-! ## Devices -/

/-- A device stays what it is: its bounds and its words for a failure do not change. -/
theorem exists_write_device (d : Device) (piece : List Char) :
    ∃ d' : Device, (device d).write piece = device d' ∧ d'.reason = d.reason ∧
      d'.failAfter = d.failAfter ∧ d'.limit = d.limit := by
  refine ⟨_, rfl, ?_⟩
  split <;> exact ⟨rfl, rfl, rfl⟩

/-- A device gives its own words for a failure. -/
theorem eq_reason_of_refusalAmong? {d : Device} {pieces : List (List Char)} {reason : String}
    (h : (device d).refusalAmong? pieces = some reason) : reason = d.reason := by
  induction pieces generalizing d with
  | nil => cases h
  | cons piece pieces ih =>
    rw [refusalAmong?] at h
    cases hpiece : (device d).refusal? piece with
    | none =>
      obtain ⟨d', hd', hreason, -, -⟩ := exists_write_device d piece
      rw [hpiece, hd'] at h
      exact (ih h).trans hreason
    | some other =>
      rw [hpiece] at h
      rw [refusal?] at hpiece
      split at hpiece
      · cases hpiece
      · cases h
        exact (Option.some.inj hpiece).symm

/-- A device without bounds takes everything. -/
theorem refusalAmong?_eq_none {d : Device} (hfail : d.failAfter = none) (hlimit : d.limit = none)
    (pieces : List (List Char)) : (device d).refusalAmong? pieces = none := by
  induction pieces generalizing d with
  | nil => rfl
  | cons piece pieces ih =>
    have htaken : d.takesWhole (Text.encode piece) = true := by
      simp [Device.takesWhole, Device.taken, hfail, hlimit]
    have hpiece : (device d).refusal? piece = none := by
      simp [refusal?, htaken]
    obtain ⟨d', hd', -, hfail', hlimit'⟩ := exists_write_device d piece
    rw [refusalAmong?, hpiece, hd']
    exact ih (hfail'.trans hfail) (hlimit'.trans hlimit)

end Sink

namespace Render

variable {σ α β : Type}

/-! ## Streams -/

/-- The outcome of a part of a rendering, with another sink. -/
def outcomeOn (sink : Sink) :
    EStateM.Result Error (Progress σ) α → EStateM.Result Error (Progress σ) α
  | .ok a p => .ok a { p with sink := sink }
  | .error e p => .error e { p with sink := sink }

/-- The questions that have been asked when a part of a rendering has ended. -/
def callsOf : EStateM.Result Error (Progress σ) α → List Call
  | .ok _ p => p.calls
  | .error _ p => p.calls

/-- A sink is offered the pieces of a stream.  Either it takes them all and the outcome is as it is
on every sink, or the part ends with the first failure of the sink, and has asked no questions but
some of the first that are asked otherwise. -/
def EndsOn (pieces : List (List Char)) (outcome : EStateM.Result Error (Progress σ) α)
    (sink : Sink) (r : EStateM.Result Error (Progress σ) α) : Prop :=
  match sink.refusalAmong? pieces with
  | none => r = outcomeOn (sink.writeAll pieces) outcome
  | some reason =>
    ∃ q : Progress σ, r = .error (.device reason) q ∧ q.sink = sink.writeAll pieces ∧
      q.calls <+: callsOf outcome

/-- From a state of progress, a part of a rendering writes a stream of pieces and has an outcome,
which is no failure of a sink. -/
structure StreamsFrom (x : Render σ α) (p : Progress σ) (pieces : List (List Char))
    (outcome : EStateM.Result Error (Progress σ) α) : Prop where
  genuine : ∀ reason q, outcome ≠ .error (.device reason) q
  calls : p.calls <+: callsOf outcome
  endsOn : ∀ sink, EndsOn pieces outcome sink (x { p with sink := sink })

/-- From every state of progress, a part of a rendering has a stream and an outcome that do not
depend on the sink. -/
def Streams (x : Render σ α) : Prop :=
  ∀ p, ∃ pieces outcome, StreamsFrom x p pieces outcome

namespace Streams

/-- A part that does not look at the sink has an empty stream. -/
theorem of_silent {x : Render σ α} {p : Progress σ}
    (outcome : EStateM.Result Error (Progress σ) α)
    (hgenuine : ∀ reason q, outcome ≠ .error (.device reason) q)
    (hcalls : p.calls <+: callsOf outcome)
    (hsink : ∀ sink, x { p with sink := sink } = outcomeOn sink outcome) :
    ∃ pieces outcome, StreamsFrom x p pieces outcome :=
  ⟨[], outcome, hgenuine, hcalls, hsink⟩

theorem pure (a : α) : Streams (σ := σ) (Pure.pure a) := fun p =>
  of_silent (.ok a p) (by simp) List.prefix_rfl fun _ => rfl

theorem throw {e : Error} (he : ∀ reason, e ≠ .device reason) :
    Streams (σ := σ) (α := α) (MonadExcept.throw e) := fun p =>
  of_silent (.error e p) (by simpa using he) List.prefix_rfl fun _ => rfl

theorem report (e : Event) : Streams (σ := σ) (report e) := fun p =>
  of_silent (.ok () { p with events := p.events ++ [e] }) (by simp) List.prefix_rfl
    fun _ => rfl

theorem ask (host : Host σ) (call : Call) : Streams (ask host call) := fun p =>
  of_silent (Render.ask host call p) (by simp [Render.ask]) (List.prefix_append _ _)
    fun _ => rfl

/-- A piece is a stream by itself. -/
theorem emit (piece : List Char) : Streams (σ := σ) (emit piece) := by
  intro p
  refine ⟨[piece], .ok () p, ?_, List.prefix_rfl, ?_⟩
  · intro reason q h
    cases h
  · intro sink
    unfold EndsOn Render.emit
    simp only [Sink.refusalAmong?, Sink.writeAll]
    cases sink.refusal? piece with
    | none => rfl
    | some reason => exact ⟨_, rfl, rfl, List.prefix_rfl⟩

/-- Streams follow each other. -/
theorem bind {x : Render σ α} {f : α → Render σ β} (hx : Streams x) (hf : ∀ a, Streams (f a)) :
    Streams (x >>= f) := by
  intro p
  obtain ⟨xs, first, hfirst⟩ := hx p
  cases first with
  | error e q =>
    refine ⟨xs, .error e q, ?_, hfirst.calls, ?_⟩
    · intro reason q' h
      cases h
      exact hfirst.genuine reason q rfl
    · intro sink
      have hends := hfirst.endsOn sink
      show EndsOn xs _ sink (EStateM.bind x f { p with sink := sink })
      unfold EStateM.bind
      unfold EndsOn at hends ⊢
      cases hrefusal : sink.refusalAmong? xs with
      | none =>
        rw [hrefusal] at hends
        rw [hends]
        rfl
      | some reason =>
        rw [hrefusal] at hends
        obtain ⟨q', hx', hsink, hcalls⟩ := hends
        rw [hx']
        exact ⟨q', rfl, hsink, hcalls⟩
  | ok a q =>
    obtain ⟨ys, second, hsecond⟩ := hf a q
    refine ⟨xs ++ ys, second, hsecond.genuine, hfirst.calls.trans hsecond.calls, ?_⟩
    intro sink
    have hends := hfirst.endsOn sink
    show EndsOn (xs ++ ys) _ sink (EStateM.bind x f { p with sink := sink })
    unfold EStateM.bind
    unfold EndsOn at hends
    cases hrefusal : sink.refusalAmong? xs with
    | none =>
      rw [hrefusal] at hends
      rw [hends]
      have hrest := hsecond.endsOn (sink.writeAll xs)
      unfold EndsOn at hrest ⊢
      rw [Sink.refusalAmong?_append hrefusal, Sink.writeAll_append hrefusal]
      exact hrest
    | some reason =>
      rw [hrefusal] at hends
      obtain ⟨q', hx', hsink, hcalls⟩ := hends
      rw [hx']
      obtain ⟨hrefusal', hwrite⟩ := Sink.offer_append_of_refusalAmong? hrefusal ys
      unfold EndsOn
      rw [hrefusal', hwrite]
      exact ⟨q', rfl, hsink, hcalls.trans hsecond.calls⟩

/-- Captured output is no part of the stream. -/
theorem captured {x : Render σ Unit} (hx : Streams x) : Streams (captured x) := by
  intro p
  obtain ⟨pieces, outcome, h⟩ := hx p
  have hempty := h.endsOn .empty
  unfold EndsOn Sink.empty at hempty
  rw [Sink.refusalAmong?_buffer] at hempty
  refine ⟨[], Render.captured x p, ?_, ?_, ?_⟩
  · intro reason q hq
    unfold Render.captured Sink.empty at hq
    rw [hempty] at hq
    cases outcome with
    | ok _ r => cases hq
    | error e r =>
      cases hq
      exact h.genuine reason r rfl
  · unfold Render.captured Sink.empty
    rw [hempty]
    have hcalls := h.calls
    cases outcome <;> exact hcalls
  · intro sink
    show Render.captured x { p with sink := sink } = outcomeOn sink (Render.captured x p)
    unfold Render.captured Sink.empty
    rw [hempty]
    cases outcome <;> rfl

/-- Findings of errors may be changed, for failures of sinks are none. -/
theorem mapFinding (g : Finding → Finding) {x : Render σ α} (hx : Streams x) :
    Streams (mapError (Error.mapFinding g) x) := by
  intro p
  obtain ⟨pieces, outcome, h⟩ := hx p
  refine ⟨pieces, mapError (Error.mapFinding g) (fun _ => outcome) p, ?_, ?_, ?_⟩
  · intro reason q hq
    unfold mapError at hq
    cases outcome with
    | ok a r => cases hq
    | error e r =>
      cases e with
      | device other => exact h.genuine other r rfl
      | _ => cases hq
  · have hcalls := h.calls
    cases outcome <;> exact hcalls
  · intro sink
    have hends := h.endsOn sink
    unfold EndsOn at hends ⊢
    unfold mapError
    cases hrefusal : sink.refusalAmong? pieces with
    | none =>
      rw [hrefusal] at hends
      rw [hends]
      cases outcome <;> rfl
    | some reason =>
      rw [hrefusal] at hends
      obtain ⟨q, hx', hsink, hcalls⟩ := hends
      rw [hx']
      refine ⟨q, rfl, hsink, ?_⟩
      cases outcome <;> exact hcalls

end Streams

/-! ## Programs -/

/-- Having a stream is kept by programs, if partials are loaded without output. -/
theorem congruence_streams {s : Setting σ} (hload : ∀ name indent, Streams (s.load name indent)) :
    Congruence s s fun _ x _ => Streams x where
  pure := .pure
  flawed _ := .throw (by simp)
  bind := .bind
  emit := .emit
  report := .report
  ask := .ask s.host
  captured := .captured
  mapFinding g _ _ hx := hx.mapFinding g
  load := hload

/-- Every template has a stream. -/
theorem streams_runTemplate {s : Setting σ} (hload : ∀ name indent, Streams (s.load name indent))
    (depth : Nat) (t : Template) (ctx : Context) : Streams (runTemplate s depth t ctx) := by
  have hbase : NestedRelated s s (fun _ x _ => Streams x) none (nestedAt s 0) :=
    .none (.throw (by simp))
  exact (congruence_streams hload).runTemplate hbase depth t ctx

/-- Partials are loaded without output and without questions. -/
theorem streams_partialTemplate (delimiters : Delimiters) (partials : Dictionary String)
    (name indent : String) :
    Streams (σ := σ) (partialTemplate delimiters partials name indent) := by
  intro p
  cases hkept : p.compiled.find? name indent with
  | some t =>
    refine Streams.of_silent (.ok (some t) p) (by simp) List.prefix_rfl fun sink => ?_
    simp only [partialTemplate_apply, hkept]
    rfl
  | none =>
    cases hsource : Dictionary.get? partials name with
    | none =>
      let missed : Progress σ := { p with events := p.events ++ [Event.missingPartial name] }
      refine Streams.of_silent (.ok none missed) (by simp) List.prefix_rfl fun sink => ?_
      simp only [partialTemplate_apply, hkept, hsource]
      rfl
    | some source =>
      let started : Progress σ := { p with
        events := p.events ++ [Event.compilingPartial name (Event.sizeOf source) indent] }
      cases hcompile : Template.compile delimiters (Template.indented indent source) with
      | ok t =>
        let kept : Progress σ := { started with compiled := p.compiled.add name indent t }
        refine Streams.of_silent (.ok (some t) kept) (by simp) List.prefix_rfl fun sink => ?_
        simp only [partialTemplate_apply, compilePartial_apply, hkept, hsource, hcompile]
        rfl
      | error e =>
        obtain ⟨flaw, rfl⟩ := Template.exists_finding_of_compile_error hcompile
        let error : Error := .flawed ⟨flaw, Template.indented indent source, none⟩
        have hgenuine : ∀ reason q, EStateM.Result.error (α := Option Template) error started ≠
            .error (.device reason) q := by simp [error]
        refine Streams.of_silent (.error error started) hgenuine List.prefix_rfl fun sink => ?_
        simp only [partialTemplate_apply, compilePartial_apply, hkept, hsource, hcompile]
        rfl

end Render

namespace Engine

variable {σ : Type}

/-- Compiling is no writing. -/
theorem templateOf_ne_device (source : String) (a : Activity σ) (reason : String)
    (b : Activity σ) : templateOf source a ≠ .error (.device reason) b := by
  rw [templateOf_apply]
  cases Dictionary.get? a.engine.templates source with
  | some t => simp
  | none =>
    dsimp only
    cases hcompile : a.engine.compile source with
    | ok t => simp
    | error e =>
      obtain ⟨flaw, rfl⟩ := Template.exists_finding_of_compile_error hcompile
      simp

/-! ## Courses of renderings -/

/-- How a rendering goes in full: the pieces that it writes, how it ends, and the activity after
it. -/
structure Course (σ : Type) where
  pieces : List (List Char)
  failure : Option Error
  after : Activity σ

namespace Course

/-- All that is written. -/
def stream (c : Course σ) : List Char :=
  c.pieces.flatten

/-- The text of a rendering, or the error that ends it. -/
def outcome (c : Course σ) : EStateM.Result Error (Activity σ) String :=
  match c.failure with
  | none => .ok (String.ofList c.stream) c.after
  | some e => .error e c.after

/-- The course of a rendering with these pieces and this outcome. -/
def ofRun (a : Activity σ) (pieces : List (List Char)) :
    EStateM.Result Error (Progress σ) Unit → Course σ
  | .ok _ p => ⟨pieces, none, a.resume p⟩
  | .error e p => ⟨pieces, some e, a.resume p⟩

@[simp]
theorem pieces_ofRun (a : Activity σ) (pieces : List (List Char))
    (r : EStateM.Result Error (Progress σ) Unit) : (ofRun a pieces r).pieces = pieces := by
  cases r <;> rfl

/-- What a device gets is cut out of a course: it holds the beginning of the stream, some of the
first questions have been asked, and where no piece is refused all is as in the course itself. -/
structure CutsTo (c : Course σ) (d : Device) (failure : Option Error) (sink : Sink)
    (b : Activity σ) : Prop where
  written : sink = (Sink.device d).writeAll c.pieces
  bytes : sink.bytes <+: d.accepted ++ Text.encode c.stream
  calls : b.calls <+: c.after.calls
  refused : failure = some (.device d.reason) ↔ (Sink.device d).refusalAmong? c.pieces ≠ none
  taken : (Sink.device d).refusalAmong? c.pieces = none →
    failure = c.failure ∧ b = c.after ∧ sink.bytes = d.accepted ++ Text.encode c.stream

end Course

/-- A course is that of a rendering if every sink is offered its pieces, up to the first one that
the sink does not take whole. -/
structure Course.IsOf (c : Course σ) (host : Host σ) (t : Template) (view : Value)
    (a : Activity σ) : Prop where
  genuine : ∀ reason, c.failure ≠ some (.device reason)
  draws : ∀ sink : Sink, ∃ failure b,
    draw host t view sink a = .ok (failure, sink.writeAll c.pieces) b ∧
    match sink.refusalAmong? c.pieces with
    | none => failure = c.failure ∧ b = c.after
    | some reason => failure = some (.device reason) ∧ b.calls <+: c.after.calls

/-- Every rendering has a course. -/
theorem exists_course (host : Host σ) (t : Template) (view : Value) (a : Activity σ) :
    ∃ c : Course σ, c.IsOf host t view a := by
  obtain ⟨pieces, outcome, h⟩ := Render.streams_runTemplate (s := a.engine.setting host)
    (Render.streams_partialTemplate a.engine.delimiters a.engine.partials) a.engine.limit t
    (Context.ofView view) (a.begin .empty)
  have hdraw : ∀ sink, draw host t view sink a =
      match Render.runTemplate (a.engine.setting host) a.engine.limit t (Context.ofView view)
        { a.begin .empty with sink := sink } with
      | .ok _ p => .ok (none, p.sink) (a.resume p)
      | .error e p => .ok (some e, p.sink) (a.resume p) := fun _ => rfl
  refine ⟨Course.ofRun a pieces outcome, ?_, fun sink => ?_⟩
  · intro reason hreason
    cases outcome with
    | ok u p => cases hreason
    | error e p =>
      cases hreason
      exact h.genuine reason p rfl
  · have hends := h.endsOn sink
    unfold Render.EndsOn at hends
    rw [hdraw, Course.pieces_ofRun]
    cases hrefusal : sink.refusalAmong? pieces with
    | none =>
      rw [hrefusal] at hends
      rw [hends]
      refine ⟨(Course.ofRun a pieces outcome).failure, (Course.ofRun a pieces outcome).after, ?_,
        rfl, rfl⟩
      cases outcome <;> rfl
    | some reason =>
      rw [hrefusal] at hends
      obtain ⟨q, hq, hsink, hcalls⟩ := hends
      rw [hq]
      refine ⟨some (.device reason), a.resume q, by rw [← hsink], rfl, ?_⟩
      cases outcome <;> exact hcalls

namespace Course.IsOf

variable {c : Course σ} {host : Host σ} {t : Template} {view : Value} {a : Activity σ}

/-- A text is drawn to a buffer, which refuses nothing. -/
theorem renderTemplate_eq (h : c.IsOf host t view a) :
    renderTemplate host t view a = c.outcome := by
  obtain ⟨failure, b, hdraw, hend⟩ := h.draws .empty
  unfold Sink.empty at hdraw hend
  rw [Sink.refusalAmong?_buffer] at hend
  obtain ⟨rfl, rfl⟩ := hend
  rw [renderTemplate_apply, Sink.empty, hdraw, Sink.writeAll_buffer, String.empty_append]
  unfold outcome
  cases c.failure <;> rfl

/-- What a device gets is cut out of the course. -/
theorem exists_cutsTo (h : c.IsOf host t view a) (d : Device) :
    ∃ failure sink b, draw host t view (.device d) a = .ok (failure, sink) b ∧
      c.CutsTo d failure sink b := by
  obtain ⟨failure, b, hdraw, hend⟩ := h.draws (.device d)
  refine ⟨failure, _, b, hdraw, ?_⟩
  have hbytes := Sink.bytes_writeAll_prefix (.device d) c.pieces
  cases hrefusal : (Sink.device d).refusalAmong? c.pieces with
  | none =>
    rw [hrefusal] at hend
    obtain ⟨rfl, rfl⟩ := hend
    exact {
      written := rfl
      bytes := hbytes
      calls := List.prefix_rfl
      refused := by simpa [hrefusal] using h.genuine d.reason
      taken := fun _ => ⟨rfl, rfl, Sink.bytes_writeAll hrefusal⟩ }
  | some reason =>
    rw [hrefusal] at hend
    obtain ⟨rfl, hcalls⟩ := hend
    obtain rfl := Sink.eq_reason_of_refusalAmong? hrefusal
    exact {
      written := rfl
      bytes := hbytes
      calls := hcalls
      refused := by simp [hrefusal]
      taken := by simp [hrefusal] }

end Course.IsOf

/-- Rendering to a text never fails for want of a device. -/
theorem renderTemplate_ne_device (host : Host σ) (t : Template) (view : Value) (a : Activity σ)
    (reason : String) (b : Activity σ) :
    renderTemplate host t view a ≠ .error (.device reason) b := by
  obtain ⟨c, hc⟩ := exists_course host t view a
  rw [hc.renderTemplate_eq]
  intro h
  unfold Course.outcome at h
  split at h
  · cases h
  · rename_i e he
    cases h
    exact hc.genuine reason he

/-- Nor does compiling a source and rendering it. -/
theorem render_ne_device (host : Host σ) (source : String) (view : Value) (a : Activity σ)
    (reason : String) (b : Activity σ) : render host source view a ≠ .error (.device reason) b := by
  unfold render
  split
  · intro h
    cases h
  · show EStateM.bind (templateOf source) (fun t => renderTemplate host t view) a ≠ _
    unfold EStateM.bind
    cases htemplate : templateOf source a with
    | ok t a' => exact renderTemplate_ne_device host t view a' reason b
    | error e a' =>
      intro h
      cases h
      exact templateOf_ne_device source a reason _ htemplate

/-- One course tells what comes of a rendering to a text and to every device.  The text is what is
written in the course, and it fails as the course does, never for want of a device.  A device that
takes everything holds what is written and reports the failure of the course.  Every other device is
cut off at the first piece that it does not take whole. -/
theorem draw_device_cut (host : Host σ) (t : Template) (view : Value) (a : Activity σ) :
    ∃ c : Course σ, renderTemplate host t view a = c.outcome ∧
      (∀ reason, c.failure ≠ some (.device reason)) ∧
      (∀ source reason b, render host source view a ≠ .error (.device reason) b) ∧
      (∀ d : Device, d.failAfter = none → d.limit = none → ∃ sink : Sink,
        draw host t view (.device d) a = .ok (c.failure, sink) c.after ∧
        sink.bytes = d.accepted ++ Text.encode c.stream) ∧
      ∀ d : Device, ∃ failure sink b,
        draw host t view (.device d) a = .ok (failure, sink) b ∧ c.CutsTo d failure sink b := by
  obtain ⟨c, hc⟩ := exists_course host t view a
  refine ⟨c, hc.renderTemplate_eq, hc.genuine, ?_, ?_, hc.exists_cutsTo⟩
  · exact fun source reason b => render_ne_device host source view a reason b
  · intro d hfail hlimit
    obtain ⟨failure, sink, b, hdraw, hcut⟩ := hc.exists_cutsTo d
    obtain ⟨rfl, rfl, hbytes⟩ := hcut.taken (Sink.refusalAmong?_eq_none hfail hlimit c.pieces)
    exact ⟨sink, hdraw, hbytes⟩

/-- A device takes six bytes, which end inside a character, and then reports its own words. -/
theorem draw_device_cut_inside_character :
    let host : Host Unit := ⟨fun _ _ u => ("", u)⟩
    let t : Template := ⟨"a\x7b\x7bx\x7d\x7d!", .standard, [.text ⟨0, ['a']⟩,
      .interpolation .escaped (Reference.ofName ⟨3, ['x']⟩), .text ⟨6, ['!']⟩]⟩
    let view : Value := .map [("x", .text "<é")]
    let a : Activity Unit := ⟨{ delimiters := .standard, limit := 64 }, (), [], []⟩
    let d : Device := { limit := some 6, reason := "disk is full" }
    ∃ c : Course Unit, renderTemplate host t view a = c.outcome ∧
      c.failure = none ∧ c.stream = "a&lt;é!".toList ∧
      ∃ failure sink b, draw host t view (.device d) a = .ok (failure, sink) b ∧
        c.CutsTo d failure sink b ∧ failure = some (.device "disk is full") ∧
        sink.bytes = [0x61, 0x26, 0x6C, 0x74, 0x3B, 0xC3] := by
  intro host t view a d
  obtain ⟨c, hc, -, -, -, hcut⟩ := draw_device_cut host t view a
  obtain ⟨failure, sink, b, hdraw, hcuts⟩ := hcut d
  have htext : (match renderTemplate host t view a with
      | .ok text _ => some text
      | .error _ _ => none) = some "a&lt;é!" := by decide +kernel
  have hdevice : (match draw host t view (.device d) a with
      | .ok (failure, sink) _ => some (failure, sink.bytes)
      | .error _ _ => none) =
        some (some (.device "disk is full"), [0x61, 0x26, 0x6C, 0x74, 0x3B, 0xC3]) := by
    decide +kernel
  rw [hc, Course.outcome] at htext
  rw [hdraw] at hdevice
  obtain ⟨hfailure, hbytes⟩ := Prod.mk.inj (Option.some.inj hdevice)
  refine ⟨c, hc, ?_⟩
  cases hnone : c.failure with
  | some e =>
    rw [hnone] at htext
    cases htext
  | none =>
    rw [hnone] at htext
    refine ⟨rfl, ?_, failure, sink, b, hdraw, hcuts, hfailure, hbytes⟩
    rw [← String.toList_ofList (l := c.stream), Option.some.inj htext]

end Engine

end Mustache
