import Mustache.Proofs.Caching
import Mustache.Proofs.Walking

/-!
# What a rendering keeps and reports

A rendering keeps compiled partials and reports what it does.  Both change only where a
partial is loaded or the text of a lambda is expanded.  So a property that survives these
two survives every turn of a rendering, and it holds where the rendering ends, whether it
comes to its end or breaks down.

A session draws a template for some requests only: those for a source, before which the
partials may be replaced and the source may have to be compiled, and those for a template
that is kept by name.

Main results:

- Theorem `Stepwise.Walk.satisfies`: a property that loading and expanding do not destroy
  holds at every moment of a rendering.
- Theorem `Render.leaves_render`: it holds where the rendering ends.
- Theorem `Session.Draws.answer_eq`: what is answered to a request for which a template is
  drawn.
-/

namespace Mustache

variable {σ : Type}

/-- The property holds of what is kept and reported so far. -/
def Progress.Satisfies (p : Progress σ) (P : CompiledPartials → List Event → Prop) : Prop :=
  P p.compiled p.events

namespace Render

/-! ## Parts of a rendering -/

/-- However a part of a rendering ends, its progress satisfies the property. -/
def Leaves {α : Type} (P : CompiledPartials → List Event → Prop) :
    EStateM.Result Error (Progress σ) α → Prop
  | .ok _ p => p.Satisfies P
  | .error _ p => p.Satisfies P

end Render

/-- The property survives loading a partial and expanding the text of a lambda. -/
structure Setting.Maintains (s : Setting σ) (P : CompiledPartials → List Event → Prop) : Prop where
  load : ∀ name indent (p : Progress σ), p.Satisfies P → Render.Leaves P (s.load name indent p)
  expanding : ∀ compiled events size, P compiled events →
    P compiled (events ++ [.expandingLambda size])

namespace Render

variable {s : Setting σ} {P : CompiledPartials → List Event → Prop} {p : Progress σ}

/-- Writing keeps and reports nothing. -/
theorem leaves_emitAll (h : p.Satisfies P) (pieces : List (List Char)) :
    Leaves P (emitAll pieces p) := by
  induction pieces generalizing p with
  | nil => exact h
  | cons piece pieces ih =>
    show Leaves P (EStateM.bind (emit piece) _ p)
    unfold EStateM.bind emit
    cases p.sink.refusal? piece with
    | none => exact ih h
    | some reason => exact h

/-- An effect keeps and reports nothing but what loading a partial does. -/
theorem leaves_perform (hs : s.Maintains P) (h : p.Satisfies P) (effect : Effect) :
    Leaves P (perform s effect p) := by
  cases effect with
  | write pieces =>
    have hwrite := leaves_emitAll h pieces
    show Leaves P (EStateM.bind (emitAll pieces) _ p)
    unfold EStateM.bind
    cases hresult : emitAll pieces p with
    | ok _ q | error _ q =>
      rw [hresult] at hwrite
      exact hwrite
  | refuse finding => exact h
  | ask call capture => exact h
  | load name indent =>
    have hload := hs.load name indent p h
    show Leaves P (EStateM.bind (mapError (Error.blame name) (s.load name indent)) _ p)
    unfold EStateM.bind mapError
    cases hresult : s.load name indent p with
    | ok _ q | error _ q =>
      rw [hresult] at hload
      exact hload

end Render

namespace Stepwise

/-! ## Moments -/

/-- The progress up to what comes of a moment. -/
def Move.progress : Move σ → Progress σ
  | .ends p => p
  | .fails b => b.progress
  | .goes m | .opens _ _ m => m.progress

/-- The progress up to what comes of a moment under a bound. -/
def Turn.progress : Turn σ → Progress σ
  | .ends p => p
  | .fails b => b.progress
  | .goes m => m.progress

variable {s : Setting σ} {P : CompiledPartials → List Event → Prop} {m m' : Moment σ}

/-- On its way outwards, an error keeps and reports nothing. -/
theorem leaves_settle {p : Progress σ} (h : p.Satisfies P) (frames : List Frame) (e : Error) :
    Render.Leaves P (settle frames e p) := by
  induction frames generalizing e p with
  | nil => exact h
  | cons f frames ih =>
    obtain ⟨entry, outer⟩ := f
    cases entry with
    | inclusion name source => exact ih h (e.blameOwner name source)
    | expansion aside =>
      cases aside with
      | none => exact ih h e
      | some aside =>
        exact ih (show Progress.Satisfies { p with sink := aside.2 } P from h) e

/-- Going back to a template that waits. -/
theorem Frame.satisfies_resume {p : Progress σ} (h : p.Satisfies P) (f : Frame)
    (frames : List Frame) : (f.resume frames p).progress.Satisfies P := by
  unfold resume
  split
  · exact h
  · exact h
  · rename_i escaping sink _
    have hwrite := Render.leaves_emitAll (p := { p with sink := sink }) h
      (Render.textPieces escaping p.sink.text)
    split
    · rename_i hresult
      rw [hresult] at hwrite
      exact hwrite
    · rename_i hresult
      rw [hresult] at hwrite
      exact hwrite

/-- What comes of a moment before any bound is looked at. -/
theorem Moment.satisfies_move (hs : s.Maintains P) (h : m.progress.Satisfies P) :
    (m.move s).progress.Satisfies P := by
  unfold move
  split
  · exact h
  · exact Frame.satisfies_resume h _ _
  · rename_i ctx i rest _
    cases i.plan m.page.template ctx with
    | body agenda => exact h
    | effect effect =>
      have heffect := Render.leaves_perform hs h effect
      unfold follow
      dsimp only
      split
      · rename_i hresult
        rw [hresult] at heffect
        exact heffect
      · rename_i hresult
        rw [hresult] at heffect
        exact heffect
      · rename_i hresult
        rw [hresult] at heffect
        exact heffect

/-- Going on inside a template. -/
theorem Moment.satisfies_enter (hs : s.Maintains P) (h : m.progress.Satisfies P) (ctx : Context)
    (insertion : Insertion) : (m.enter ctx insertion).progress.Satisfies P := by
  cases insertion with
  | inclusion name inner => exact h
  | expansion capture text =>
    have hexpanding := hs.expanding _ _ (Event.sizeOf text) h
    unfold enter
    dsimp only
    split
    · exact hexpanding
    · exact hexpanding

/-- A turn does not destroy the property, whatever comes of it. -/
theorem Moment.satisfies_turn (hs : s.Maintains P) (h : m.progress.Satisfies P)
    (bound : Option Nat) : (m.turn s bound).progress.Satisfies P := by
  have hmove := satisfies_move hs h
  unfold turn
  cases hnext : m.move s with
  | ends p | fails b | goes k =>
    rw [hnext] at hmove
    exact hmove
  | opens insertion ctx k =>
    rw [hnext] at hmove
    dsimp only
    split
    · exact hmove
    · exact satisfies_enter hs hmove ctx insertion

/-- What holds at one moment of a rendering holds at all later ones. -/
theorem Walk.satisfies (hs : s.Maintains P) {bound : Option Nat} (h : Walk s bound m m')
    (hm : m.progress.Satisfies P) : m'.progress.Satisfies P := by
  induction h with
  | refl => exact hm
  | tail _ hturn ih =>
    have hnext := Moment.satisfies_turn hs ih bound
    rw [hturn] at hnext
    exact hnext

end Stepwise

/-- What holds where a rendering starts holds where it ends. -/
theorem Render.leaves_render {s : Setting σ} {P : CompiledPartials → List Event → Prop}
    (hs : s.Maintains P) (t : Template) (view : Value) {p : Progress σ} (h : p.Satisfies P) :
    Leaves P (t.render s view p) := by
  obtain ⟨last, hwalk, houtcome⟩ := Stepwise.exists_walk_render s t view p
  have hlast : (last.turn s (some s.limit)).progress.Satisfies P :=
    Stepwise.Moment.satisfies_turn hs (hwalk.satisfies hs h) _
  cases hturn : last.turn s (some s.limit) with
  | ends q =>
    rw [hturn] at houtcome hlast
    rw [← Option.some.inj houtcome]
    exact hlast
  | fails b =>
    rw [hturn] at houtcome hlast
    rw [← Option.some.inj houtcome]
    exact Stepwise.leaves_settle hlast b.frames b.error
  | goes m =>
    rw [hturn] at houtcome
    cases houtcome

namespace Engine

variable {P : CompiledPartials → List Event → Prop} {e : Engine}

/-- In a rendering of an engine, a property survives if it does where a partial is missing, where
one is compiled, with or without success, and where the text of a lambda is expanded. -/
theorem maintains_setting
    (missing : ∀ compiled events name, Dictionary.get? e.partials name = none →
      P compiled events → P compiled (events ++ [.missingPartial name]))
    (flawed : ∀ compiled events name indent source failure,
      Dictionary.get? e.partials name = some source →
      Template.compile e.delimiters (Template.indented indent source) = .error failure →
      P compiled events →
      P compiled (events ++ [.compilingPartial name (Event.sizeOf source) indent]))
    (kept : ∀ compiled events name indent source t,
      Dictionary.get? e.partials name = some source →
      Template.compile e.delimiters (Template.indented indent source) = .ok t →
      P compiled events →
      P (compiled.add name indent t)
        (events ++ [.compilingPartial name (Event.sizeOf source) indent]))
    (expanding : ∀ compiled events size, P compiled events →
      P compiled (events ++ [.expandingLambda size])) (host : Host σ) :
    (e.setting host).Maintains P := by
  refine ⟨fun name indent p hp => ?_, expanding⟩
  show Render.Leaves P (Render.partialTemplate e.delimiters e.partials name indent p)
  rw [Render.partialTemplate_apply]
  cases p.compiled.find? name indent with
  | some t => exact hp
  | none =>
    cases hstored : Dictionary.get? e.partials name with
    | none => exact missing _ _ name hstored hp
    | some source =>
      dsimp only
      rw [Render.compilePartial_apply]
      dsimp only
      cases hcompile : Template.compile e.delimiters (Template.indented indent source) with
      | error failure => exact flawed _ _ name indent source failure hstored hcompile hp
      | ok t => exact kept _ _ name indent source t hstored hcompile hp

/-- Drawing a template changes nothing of an engine but the partials that it keeps. -/
theorem satisfies_of_draw {host : Host σ} {t : Template} {view : Value} {sink taken : Sink}
    {a b : Engine.Activity σ} {failure : Option Error}
    (hs : (a.engine.setting host).Maintains P) (h : P a.engine.compiled a.events)
    (hdraw : draw host t view sink a = .ok (failure, taken) b) :
    b.engine = { a.engine with compiled := b.engine.compiled } ∧
      P b.engine.compiled b.events := by
  have hrender := Render.leaves_render hs t view (p := a.begin sink) h
  unfold draw at hdraw
  cases hresult : t.render (a.engine.setting host) view (a.begin sink) with
  | ok u p | error failure p =>
    rw [hresult] at hrender hdraw
    cases hdraw
    exact ⟨rfl, hrender⟩

end Engine

/-! ## Renderings of a session -/

namespace Request

/-- The source that a request renders, with the view once it is converted, and with new partials if
some are given. -/
def source? : Request → Option (String × Value × Option (List (String × String)))
  | render source view =>
    match view.value with
    | .ok v => some (source, v, none)
    | .error _ => none
  | renderWith source v partials => some (source, v, partials)
  | _ => none

/-- The name under which a template is kept that a request renders, with the view once it is
converted, and with the sink. -/
def named? : Request → Option (String × Value × Sink)
  | renderCompiled name view =>
    match view.value with
    | .ok v => some (name, v, .empty)
    | .error _ => none
  | writeCompiled name view device =>
    match view.value with
    | .ok v => some (name, v, .device device)
    | .error _ => none
  | _ => none

/-- What is reported of a request because partials are replaced for it. -/
def replacements : Request → List Event
  | addPartial name _ => [.addingPartial name]
  | setPartials partials | renderWith _ _ (some partials) =>
    [.replacingPartials (Dictionary.ofList partials).length]
  | _ => []

end Request

namespace Session

/-- The engine before a source is rendered, with new partials if some are given. -/
def prepared (s : Session σ) : Option (List (String × String)) → Engine.Activity σ
  | none => ⟨s.engine, s.host, [], []⟩
  | some partials =>
    let partials := Dictionary.ofList partials
    ⟨s.engine.setPartials partials, s.host, [.replacingPartials partials.length], []⟩

/-- The template that is drawn for a request, with its view and its sink, and the engine at work at
this time. -/
inductive Draws (s : Session σ) : Request → Template → Value → Sink → Engine.Activity σ → Prop
  | source {r : Request} {source : String} {view : Value}
      {partials : Option (List (String × String))} {t : Template} {a : Engine.Activity σ}
      (asked : r.source? = some (source, view, partials)) (nonempty : source ≠ "")
      (found : Engine.templateOf source (s.prepared partials) = .ok t a) :
      Draws s r t view .empty a
  | named {r : Request} {name : String} {view : Value} {sink : Sink} {t : Template}
      (asked : r.named? = some (name, view, sink))
      (found : Dictionary.get? s.templates name = some t) :
      Draws s r t view sink (s.prepared none)

/-- All that can come of a request: nothing is done, partials are replaced, the source is empty or
does not compile, or a template is drawn. -/
inductive Conduct (host : Host σ) (s : Session σ) : Request → Reply × Session σ → Prop
  | idle {r : Request} (answer : Answer) (limit : Nat) (templates : Dictionary Template)
      (notSource : r.source? = none) (keeps : r.replacements = []) :
      Conduct host s r (⟨answer, [], []⟩, ⟨{ s.engine with limit := limit }, s.host, templates⟩)
  | adding (name source : String) :
      Conduct host s (.addPartial name source) (⟨.done, [.addingPartial name], []⟩,
        { s with engine := s.engine.addPartial name source })
  | replacing (partials : List (String × String)) :
      Conduct host s (.setPartials partials) (s.finish .done (s.prepared (some partials)))
  | empty {r : Request} {view : Value} {partials : Option (List (String × String))}
      (asked : r.source? = some ("", view, partials)) :
      Conduct host s r (s.finish (.text "") (s.prepared partials))
  | flawed {r : Request} {source : String} {view : Value}
      {partials : Option (List (String × String))} {e : Error} {a : Engine.Activity σ}
      (asked : r.source? = some (source, view, partials)) (nonempty : source ≠ "")
      (failed : Engine.templateOf source (s.prepared partials) = .error e a) :
      Conduct host s r (s.finish (.failed e) a)
  | drawn {r : Request} {t : Template} {view : Value} {sink taken : Sink}
      {a b : Engine.Activity σ} {failure : Option Error} (answer : Answer)
      (draws : s.Draws r t view sink a)
      (done : Engine.draw host t view sink a = .ok (failure, taken) b) :
      Conduct host s r (s.finish answer b)

variable {s : Session σ} {r : Request} {t : Template} {view : Value} {sink : Sink}
  {a : Engine.Activity σ}

/-- Drawing does not fail by itself; it gives a failure back together with the sink. -/
theorem exists_draw (host : Host σ) (t : Template) (view : Value) (sink : Sink)
    (a : Engine.Activity σ) :
    ∃ failure taken b, Engine.draw host t view sink a = .ok (failure, taken) b := by
  unfold Engine.draw
  split
  · exact ⟨_, _, _, rfl⟩
  · exact ⟨_, _, _, rfl⟩

/-- The text of a template is answered after it is drawn. -/
theorem exists_finish_of_draw {host : Host σ} {failure : Option Error} {taken : Sink}
    {b : Engine.Activity σ}
    (h : Engine.draw host t view .empty a = .ok (failure, taken) b) (s : Session σ) :
    ∃ answer, (match Engine.renderTemplate host t view a with
      | .ok text b => s.finish (.text text) b
      | .error e b => s.finish (.failed e) b) = s.finish answer b := by
  rw [Engine.renderTemplate_apply, h]
  cases failure with
  | none => exact ⟨_, rfl⟩
  | some e => exact ⟨_, rfl⟩

/-- The answer to what the engine does for a text. -/
theorem perform_text_eq (s : Session σ) (action : Engine.Action σ String) :
    s.perform action textAnswer =
      match action (s.prepared none) with
      | .ok text b => s.finish (.text text) b
      | .error e b => s.finish (.failed e) b := by
  unfold perform prepared
  cases action ⟨s.engine, s.host, [], []⟩ <;> rfl

/-- A source is rendered after the partials have been replaced, if new ones are given. -/
theorem answer_of_source? {source : String} {partials : Option (List (String × String))}
    (h : r.source? = some (source, view, partials)) (host : Host σ) (s : Session σ) :
    s.answer host r =
      match Engine.render host source view (s.prepared partials) with
      | .ok text b => s.finish (.text text) b
      | .error e b => s.finish (.failed e) b := by
  cases r with
  | render source' view' =>
    cases hvalue : view'.value with
    | error e =>
      rw [Request.source?, hvalue] at h
      cases h
    | ok v =>
      rw [Request.source?, hvalue] at h
      cases h
      rw [answer, hvalue]
      exact perform_text_eq s _
  | renderWith source' view' partials' =>
    cases h
    rw [answer, perform_text_eq]
    cases partials <;> rfl
  | _ => cases h

/-- A source that is not empty is compiled, unless it is kept, and drawn. -/
theorem render_of_ne_empty (host : Host σ) {source : String} (hne : source ≠ "") (view : Value)
    (a : Engine.Activity σ) :
    Engine.render host source view a =
      match Engine.templateOf source a with
      | .ok t b => Engine.renderTemplate host t view b
      | .error e b => .error e b := by
  have hempty : ¬ source.isEmpty = true := by simpa using hne
  unfold Engine.render
  rw [if_neg hempty]
  show EStateM.bind (Engine.templateOf source) _ a = _
  unfold EStateM.bind
  cases Engine.templateOf source a <;> rfl

/-- What is answered to a request for which a template is drawn. -/
theorem Draws.answer_eq (h : s.Draws r t view sink a) (host : Host σ) :
    ∃ failure taken b answer, Engine.draw host t view sink a = .ok (failure, taken) b ∧
      s.answer host r = s.finish answer b := by
  obtain ⟨failure, taken, b, hdraw⟩ := exists_draw host t view sink a
  refine ⟨failure, taken, b, ?_⟩
  cases h with
  | source asked nonempty found =>
    obtain ⟨answer, hanswer⟩ := exists_finish_of_draw hdraw s
    refine ⟨answer, hdraw, ?_⟩
    rw [answer_of_source? asked, render_of_ne_empty host nonempty, found]
    exact hanswer
  | named asked found =>
    cases r with
    | renderCompiled name view' =>
      cases hvalue : view'.value with
      | error e =>
        rw [Request.named?, hvalue] at asked
        cases asked
      | ok v =>
        rw [Request.named?, hvalue] at asked
        cases asked
        obtain ⟨answer, hanswer⟩ := exists_finish_of_draw hdraw s
        refine ⟨answer, hdraw, ?_⟩
        rw [Session.answer, withTemplate, found]
        dsimp only
        rw [hvalue, ← hanswer]
        exact perform_text_eq s _
    | writeCompiled name view' device =>
      cases hvalue : view'.value with
      | error e =>
        rw [Request.named?, hvalue] at asked
        cases asked
      | ok v =>
        rw [Request.named?, hvalue] at asked
        cases asked
        refine ⟨.written failure taken.bytes, hdraw, ?_⟩
        have hperform : s.perform (Engine.draw host t view (.device device)) writtenAnswer =
            s.finish (.written failure taken.bytes) b := by
          unfold perform
          rw [show Engine.draw host t view (.device device) ⟨s.engine, s.host, [], []⟩ = _
            from hdraw]
          rfl
        rw [Session.answer, withTemplate, found]
        dsimp only
        rw [hvalue]
        exact hperform
    | _ => cases asked

/-- A request is answered in one of these ways. -/
theorem conduct (host : Host σ) (s : Session σ) (r : Request) :
    s.Conduct host r (s.answer host r) := by
  have hdrawn : ∀ {t view sink a}, s.Draws r t view sink a →
      s.Conduct host r (s.answer host r) := by
    intro t view sink a hdraws
    obtain ⟨failure, taken, b, answer, hdraw, hanswer⟩ := hdraws.answer_eq host
    rw [hanswer]
    exact .drawn answer hdraws hdraw
  cases hsource : r.source? with
  | some asked =>
    obtain ⟨source, view, partials⟩ := asked
    by_cases hne : source = ""
    · subst hne
      rw [answer_of_source? hsource, Engine.render_empty]
      exact .empty hsource
    · cases htemplate : Engine.templateOf source (s.prepared partials) with
      | ok t a => exact hdrawn (.source hsource hne htemplate)
      | error e a =>
        rw [answer_of_source? hsource, render_of_ne_empty host hne, htemplate]
        exact .flawed hsource hne htemplate
  | none =>
    cases r with
    | addPartial name source => exact .adding name source
    | setPartials partials => exact .replacing partials
    | renderWith => cases hsource
    | render source view =>
      cases hvalue : view.value with
      | error e =>
        rw [answer, hvalue]
        exact .idle _ _ _ hsource rfl
      | ok v =>
        rw [Request.source?, hvalue] at hsource
        cases hsource
    | compile name source =>
      rw [answer]
      split <;> exact .idle _ _ _ rfl rfl
    | sourceOf name =>
      rw [answer, withTemplate]
      split <;> exact .idle _ _ _ rfl rfl
    | renderCompiled name view =>
      cases hfound : Dictionary.get? s.templates name with
      | none =>
        rw [answer, withTemplate, hfound]
        exact .idle _ _ _ rfl rfl
      | some t =>
        cases hvalue : view.value with
        | error e =>
          rw [answer, withTemplate, hfound, hvalue]
          exact .idle _ _ _ rfl rfl
        | ok v =>
          have hnamed : Request.named? (.renderCompiled name view) = some (name, v, .empty) := by
            rw [Request.named?, hvalue]
          exact hdrawn (.named hnamed hfound)
    | writeCompiled name view device =>
      cases hfound : Dictionary.get? s.templates name with
      | none =>
        rw [answer, withTemplate, hfound]
        exact .idle _ _ _ rfl rfl
      | some t =>
        cases hvalue : view.value with
        | error e =>
          rw [answer, withTemplate, hfound, hvalue]
          exact .idle _ _ _ rfl rfl
        | ok v =>
          have hnamed : Request.named? (.writeCompiled name view device) =
              some (name, v, .device device) := by
            rw [Request.named?, hvalue]
          exact hdrawn (.named hnamed hfound)
    | setLimit limit => exact .idle _ _ _ rfl rfl
    | showEngine => exact .idle _ _ _ rfl rfl
    | showTemplate name =>
      rw [answer, withTemplate]
      split <;> exact .idle _ _ _ rfl rfl

end Session

end Mustache
