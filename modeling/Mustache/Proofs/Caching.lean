import Mathlib.Data.List.Forall2
import Mustache.Proofs.BareSession
import Mustache.Proofs.Simulation

/-!
# What an engine keeps

An engine keeps compiled templates and compiled partials.  Whatever it keeps is
what compiling the present sources would give, since a partial that is replaced
is forgotten and a template never changes its source.  So a session answers like
one that compiles everything anew.

Main results:

- Theorem `Engine.Faithful.addPartial`: replacing a partial leaves nothing outdated.
- Theorem `Render.partialTemplate_simulates`: loading a kept partial goes the
  same way as compiling it.
- Theorem `Session.Represents.answer`: each request is answered as by a bare session.
- Theorem `Session.answerAll_start_agrees`: so are all requests of a session.
-/

namespace Mustache

variable {σ : Type}

/-! ## Faithful stores -/

/-- The kept partials are what compiling the present sources gives. -/
def CompiledPartials.Faithful (delimiters : Delimiters) (partials : Dictionary String)
    (compiled : CompiledPartials) : Prop :=
  ∀ name indent t, compiled.find? name indent = some t →
    ∃ source, Dictionary.get? partials name = some source ∧
      Template.compile delimiters (Template.indented indent source) = .ok t

namespace CompiledPartials

variable {delimiters : Delimiters} {partials : Dictionary String} {compiled : CompiledPartials}

/-- Nothing kept is nothing outdated. -/
theorem faithful_nil : Faithful delimiters partials [] := by
  intro name indent t h
  simp [find?] at h

/-- A partial that was just compiled may be kept. -/
theorem Faithful.add (h : Faithful delimiters partials compiled) {name indent source : String}
    {t : Template} (hsource : Dictionary.get? partials name = some source)
    (ht : Template.compile delimiters (Template.indented indent source) = .ok t) :
    Faithful delimiters partials (compiled.add name indent t) := by
  intro other otherIndent u hu
  rw [find?_add] at hu
  split at hu
  · rename_i heq
    obtain ⟨rfl, rfl⟩ := heq
    obtain rfl := Option.some.inj hu
    exact ⟨source, hsource, ht⟩
  · exact h other otherIndent u hu

/-- A partial that is replaced is forgotten under every indent, the others stay as they are. -/
theorem Faithful.insert (h : Faithful delimiters partials compiled) (name source : String) :
    Faithful delimiters (Dictionary.insert name source partials)
      (Dictionary.erase name compiled) := by
  intro other indent t ht
  rw [find?, Dictionary.get?_erase] at ht
  split at ht
  · cases ht
  · rename_i hne
    obtain ⟨present, hpresent, hcompile⟩ := h other indent t ht
    refine ⟨present, ?_, hcompile⟩
    rw [Dictionary.get?_insert, if_neg hne]
    exact hpresent

end CompiledPartials

/-- All that an engine keeps is what compiling the present sources gives. -/
structure Engine.Faithful (e : Engine) : Prop where
  templates : ∀ source t, Dictionary.get? e.templates source = some t →
    Template.compile e.delimiters source = .ok t
  compiled : e.compiled.Faithful e.delimiters e.partials

namespace Engine.Faithful

variable {e : Engine}

/-- Replacing a partial leaves nothing outdated. -/
theorem addPartial (h : e.Faithful) (name source : String) : (e.addPartial name source).Faithful :=
  ⟨h.templates, h.compiled.insert name source⟩

/-- Replacing all partials leaves nothing outdated. -/
theorem setPartials (h : e.Faithful) (partials : Dictionary String) :
    (e.setPartials partials).Faithful :=
  ⟨h.templates, CompiledPartials.faithful_nil⟩

/-- A template that was just compiled may be kept. -/
theorem insertTemplate (h : e.Faithful) {source : String} {t : Template}
    (ht : Template.compile e.delimiters source = .ok t) :
    Faithful { e with templates := Dictionary.insert source t e.templates } := by
  refine ⟨?_, h.compiled⟩
  intro other u hu
  rw [Dictionary.get?_insert] at hu
  split at hu
  · rename_i heq
    subst heq
    obtain rfl := Option.some.inj hu
    exact ht
  · exact h.templates other u hu

end Engine.Faithful

/-! ## Loading partials -/

namespace Render

/-- Loading a partial that may be kept goes the same way as compiling it, and stays faithful. -/
theorem partialTemplate_simulates (delimiters : Delimiters) (partials : Dictionary String)
    (name indent : String) :
    Simulates (σ := σ) (fun kept _ => kept.Faithful delimiters partials)
      (partialTemplate delimiters partials name indent)
      (freshTemplate delimiters partials name indent) := by
  intro p q h
  rw [partialTemplate_apply, freshTemplate_apply]
  cases hfind : p.compiled.find? name indent with
  | some t =>
    obtain ⟨source, hsource, ht⟩ := h.kept name indent t hfind
    simp only [hsource, ht]
    exact ⟨rfl, h⟩
  | none =>
    cases hsource : Dictionary.get? partials name with
    | none => exact ⟨rfl, h.host, h.calls, h.sink, h.kept⟩
    | some source =>
      simp only [compilePartial_apply]
      cases ht : Template.compile delimiters (Template.indented indent source) with
      | error e => exact ⟨rfl, h.host, h.calls, h.sink, h.kept⟩
      | ok t => exact ⟨rfl, h.host, h.calls, h.sink, h.kept.add hsource ht⟩

end Render

/-! ## Engines at work -/

/-- A kept template is found, any other one is compiled and kept. -/
theorem Engine.templateOf_apply (source : String) (a : Engine.Activity σ) :
    Engine.templateOf source a =
      match Dictionary.get? a.engine.templates source with
      | some t => .ok t a
      | none =>
        let started := { a with events := a.events ++ [.compilingTemplate (Event.sizeOf source)] }
        match a.engine.compile source with
        | .error e => .error e started
        | .ok t =>
          let templates := Dictionary.insert source t a.engine.templates
          .ok t { started with engine := { a.engine with templates := templates } } := by
  unfold Engine.templateOf
  change (match Dictionary.get? a.engine.templates source with
    | some t => pure t
    | none => _ : Engine.Action σ Template) a = _
  cases Dictionary.get? a.engine.templates source with
  | some t => rfl
  | none =>
    change (match a.engine.compile source with
      | .error e => throw e
      | .ok t => _ : Engine.Action σ Template) _ = _
    cases a.engine.compile source <;> rfl

/-- The first template of a source is reported to be compiled and is kept. -/
theorem Engine.templateOf_of_compile {source : String} {a : Engine.Activity σ} {t : Template}
    (hnew : Dictionary.get? a.engine.templates source = none)
    (ht : Template.compile a.engine.delimiters source = .ok t) :
    Engine.templateOf source a =
      .ok t { a with
        engine := { a.engine with templates := Dictionary.insert source t a.engine.templates }
        events := a.events ++ [.compilingTemplate (Event.sizeOf source)] } := by
  rw [Engine.templateOf_apply, hnew]
  dsimp only
  rw [Engine.compile, ht]

/-- The text of a template is what is drawn to a buffer. -/
theorem Engine.renderTemplate_apply (host : Host σ) (t : Template) (view : Value)
    (a : Engine.Activity σ) :
    Engine.renderTemplate host t view a =
      match Engine.draw host t view .empty a with
      | .ok (none, sink) b => .ok sink.text b
      | .ok (some e, _) b => .error e b
      | .error e b => .error e b := by
  show EStateM.bind (Engine.draw host t view .empty) _ a = _
  unfold EStateM.bind
  cases Engine.draw host t view .empty a with
  | ok result b =>
    obtain ⟨failure, sink⟩ := result
    cases failure <;> rfl
  | error e b => rfl

/-- An engine at work mirrors a bare session: it has the same sources, limit and host, and keeps
nothing that is outdated. -/
structure Engine.Activity.Mirrors (a : Engine.Activity σ) (b : BareSession σ) : Prop where
  delimiters : a.engine.delimiters = b.delimiters
  limit : a.engine.limit = b.limit
  partials : a.engine.partials = b.partials
  host : a.host = b.host
  faithful : a.engine.Faithful

namespace Engine.Activity.Mirrors

variable {a : Engine.Activity σ} {b : BareSession σ}

/-- The setting of an engine is alike that of the bare session. -/
theorem setting_alike (h : a.Mirrors b) (host : Host σ) :
    Render.Setting.Alike (fun kept _ => kept.Faithful b.delimiters b.partials)
      (a.engine.setting host) (b.setting host) := by
  refine ⟨h.limit, rfl, ?_⟩
  intro name indent
  show Render.Simulates _ (Render.partialTemplate a.engine.delimiters a.engine.partials name indent)
    (Render.freshTemplate b.delimiters b.partials name indent)
  rw [h.delimiters, h.partials]
  exact Render.partialTemplate_simulates b.delimiters b.partials name indent

/-- The engine still mirrors the session after a rendering that reached the same state. -/
theorem resume (h : a.Mirrors b) {p : Progress σ} {r : Rendered σ}
    (hkept : p.compiled.Faithful b.delimiters b.partials) (hhost : p.host = r.host) :
    (a.resume p).Mirrors (b.after r) := by
  refine ⟨h.delimiters, h.limit, h.partials, hhost, h.faithful.templates, ?_⟩
  show p.compiled.Faithful a.engine.delimiters a.engine.partials
  rw [h.delimiters, h.partials]
  exact hkept

/-- A compiled template is rendered as in a bare session, and what was compiled on the way is kept
faithfully even if rendering fails. -/
theorem draw (h : a.Mirrors b) (hcalls : a.calls = []) (host : Host σ) (t : Template)
    (view : Value) (sink : Sink) :
    ∃ a' : Engine.Activity σ,
      Engine.draw host t view sink a =
        .ok ((b.draw host t view sink).failure, (b.draw host t view sink).sink) a' ∧
      a'.calls = (b.draw host t view sink).calls ∧
      a'.Mirrors (b.after (b.draw host t view sink)) := by
  have hlevel : Render.Level (fun kept _ => kept.Faithful b.delimiters b.partials)
      (a.begin sink) ⟨[], [], [], b.host, sink⟩ := by
    refine ⟨h.host, hcalls, rfl, ?_⟩
    show a.engine.compiled.Faithful b.delimiters b.partials
    rw [← h.delimiters, ← h.partials]
    exact h.faithful.compiled
  have hrun := Render.runTemplate_simulates (h.setting_alike host) b.limit t
    (Context.ofView view) _ _ hlevel
  have hdraw : t.render (a.engine.setting host) view = Render.runTemplate (a.engine.setting host)
      b.limit t (Context.ofView view) := by
    show Render.runTemplate _ a.engine.limit t _ = _
    rw [h.limit]
  have hbare : t.render (b.setting host) view = Render.runTemplate (b.setting host)
      b.limit t (Context.ofView view) := rfl
  unfold Engine.draw BareSession.draw
  rw [hdraw, hbare]
  rcases hrun.cases with ⟨_, p, q, hp, hq, hpq⟩ | ⟨e, p, q, hp, hq, hpq⟩
  · rw [hp, hq]
    refine ⟨a.resume p, ?_, hpq.calls, h.resume hpq.kept hpq.host⟩
    dsimp only
    rw [hpq.sink]
  · rw [hp, hq]
    refine ⟨a.resume p, ?_, hpq.calls, h.resume hpq.kept hpq.host⟩
    dsimp only
    rw [hpq.sink]

theorem renderTemplate (h : a.Mirrors b) (hcalls : a.calls = []) (host : Host σ) (t : Template)
    (view : Value) :
    ∃ a' : Engine.Activity σ,
      Engine.renderTemplate host t view a = (b.draw host t view .empty).outcome a' ∧
      a'.calls = (b.draw host t view .empty).calls ∧
      a'.Mirrors (b.after (b.draw host t view .empty)) := by
  obtain ⟨a', hdraw, hcalls', hmirrors⟩ := h.draw hcalls host t view .empty
  refine ⟨a', ?_, hcalls', hmirrors⟩
  rw [Engine.renderTemplate_apply, hdraw]
  unfold Rendered.outcome
  cases (b.draw host t view .empty).failure <;> rfl

/-- The template of a source is what compiling it gives, kept or not. -/
theorem templateOf (h : a.Mirrors b) (source : String) :
    ∃ a' : Engine.Activity σ, a'.calls = a.calls ∧ a'.Mirrors b ∧
      Engine.templateOf source a =
        match Template.compile b.delimiters source with
        | .ok t => .ok t a'
        | .error e => .error e a' := by
  rw [Engine.templateOf_apply]
  cases hfind : Dictionary.get? a.engine.templates source with
  | some t =>
    have ht : Template.compile b.delimiters source = .ok t := by
      rw [← h.delimiters]
      exact h.faithful.templates source t hfind
    refine ⟨a, rfl, h, ?_⟩
    rw [ht]
  | none =>
    rw [Engine.compile, h.delimiters]
    let started : Engine.Activity σ :=
      { a with events := a.events ++ [.compilingTemplate (Event.sizeOf source)] }
    have hstarted : Engine.Activity.Mirrors started b :=
      ⟨h.delimiters, h.limit, h.partials, h.host, h.faithful⟩
    cases ht : Template.compile b.delimiters source with
    | error e => exact ⟨started, rfl, hstarted, rfl⟩
    | ok t =>
      have hkept : Template.compile a.engine.delimiters source = .ok t := by
        rw [h.delimiters]
        exact ht
      let templates := Dictionary.insert source t a.engine.templates
      exact ⟨{ started with engine := { a.engine with templates := templates } }, rfl,
        ⟨h.delimiters, h.limit, h.partials, h.host, h.faithful.insertTemplate hkept⟩, rfl⟩

/-- A source is rendered as in a bare session. -/
theorem render (h : a.Mirrors b) (hcalls : a.calls = []) (host : Host σ) (source : String)
    (view : Value) :
    ∃ a' : Engine.Activity σ,
      Engine.render host source view a = (b.render host source view).outcome a' ∧
      a'.calls = (b.render host source view).calls ∧
      a'.Mirrors (b.after (b.render host source view)) := by
  unfold Engine.render BareSession.render
  split
  · exact ⟨a, rfl, hcalls, h⟩
  · obtain ⟨a₁, hcalls₁, h₁, htemplate⟩ := h.templateOf source
    show ∃ a', EStateM.bind (Engine.templateOf source) _ a = _ ∧ _
    unfold EStateM.bind BareSession.drawSource
    rw [htemplate]
    cases Template.compile b.delimiters source with
    | error e =>
      exact ⟨a₁, rfl, hcalls₁.trans hcalls, h₁.delimiters, h₁.limit, h₁.partials, h₁.host,
        h₁.faithful⟩
    | ok t => exact h₁.renderTemplate (hcalls₁.trans hcalls) host t view

/-- Replacing the partials of the engine replaces those of the session. -/
theorem replacePartials (h : a.Mirrors b) (partials : List (String × String)) :
    ∃ a' : Engine.Activity σ, Engine.replacePartials partials a = .ok () a' ∧ a'.calls = a.calls ∧
      a'.Mirrors (b.replacing (some partials)) :=
  ⟨_, rfl, rfl, h.delimiters, h.limit, rfl, h.host, h.faithful.setPartials _⟩

/-- A source is rendered as in a bare session, before which the partials are replaced if new ones
are given. -/
theorem renderWith (h : a.Mirrors b) (hcalls : a.calls = []) (host : Host σ) (source : String)
    (view : Value) (partials : Option (List (String × String))) :
    let b' := b.replacing partials
    ∃ a' : Engine.Activity σ,
      Engine.renderWith host source view partials a = (b'.render host source view).outcome a' ∧
      a'.calls = (b'.render host source view).calls ∧
      a'.Mirrors (b'.after (b'.render host source view)) := by
  cases partials with
  | none => exact h.render hcalls host source view
  | some partials =>
    obtain ⟨a₁, hreplace, hcalls₁, h₁⟩ := h.replacePartials partials
    obtain ⟨a₂, hrender, hrest⟩ := h₁.render (hcalls₁.trans hcalls) host source view
    refine ⟨a₂, Eq.trans ?_ hrender, hrest⟩
    simp only [Engine.renderWith, bind, EStateM.bind, hreplace]

end Engine.Activity.Mirrors

/-! ## Sessions -/

namespace Session

/-- A session represents a bare one: the engine mirrors it, and the templates under each name are
what compiling the source under this name gives. -/
structure Represents (s : Session σ) (b : BareSession σ) : Prop where
  engine : Engine.Activity.Mirrors ⟨s.engine, s.host, [], []⟩ b
  templates : ∀ name, Option.Rel (fun t source => Template.compile b.delimiters source = .ok t)
    (Dictionary.get? s.templates name) (Dictionary.get? b.sources name)

/-- A reply and the session after it are those of a bare session. -/
def StepsLike (step : Reply × Session σ) (bare : BareReply × BareSession σ) : Prop :=
  bare.1.Agrees step.1 ∧ step.2.Represents bare.2

variable {s : Session σ} {b : BareSession σ}

/-- A session stays represented when it is given an answer without any work of the engine. -/
theorem StepsLike.reply (h : s.Represents b) (a : Answer) :
    StepsLike (s.reply a) (b.reply (some a)) := by
  refine ⟨⟨?_, rfl⟩, h⟩
  intro a' ha
  exact Option.some.inj ha

/-- What a session shows of itself is not determined by the bare session. -/
theorem StepsLike.shown (h : s.Represents b) (a : Answer) :
    StepsLike (s.reply a) (b.reply none) := by
  refine ⟨⟨?_, rfl⟩, h⟩
  intro a' ha
  cases ha

/-- The session is still represented when the engine has been at work and still mirrors the bare
session. -/
theorem StepsLike.finish (h : s.Represents b) {a : Engine.Activity σ} {b' : BareSession σ}
    {calls : List Call} (answer : Answer) (hcalls : a.calls = calls) (hmirrors : a.Mirrors b')
    (hpair : b'.delimiters = b.delimiters) (hsources : b'.sources = b.sources) :
    StepsLike (s.finish answer a) (⟨some answer, calls⟩, b') := by
  refine ⟨⟨?_, hcalls⟩, ?_, ?_⟩
  · intro a ha
    exact Option.some.inj ha
  · exact ⟨hmirrors.delimiters, hmirrors.limit, hmirrors.partials, hmirrors.host,
      hmirrors.faithful⟩
  · intro name
    show Option.Rel _ _ (Dictionary.get? b'.sources name)
    rw [hpair, hsources]
    exact h.templates name

/-- What the engine has rendered is the answer. -/
theorem perform_textAnswer {action : Engine.Action σ String} {r : Rendered σ}
    {a : Engine.Activity σ} (hrun : action ⟨s.engine, s.host, [], []⟩ = r.outcome a) :
    s.perform action textAnswer = s.finish r.answer a := by
  unfold perform
  rw [hrun]
  unfold Rendered.outcome Rendered.answer
  cases r.failure <;> rfl

/-- A request about a template that is kept by name is answered as one about its source. -/
theorem StepsLike.withTemplate (h : s.Represents b) (name : String)
    {f : Template → Reply × Session σ} {g : String → BareReply × BareSession σ}
    (hfg : ∀ t source, Template.compile b.delimiters source = .ok t → StepsLike (f t) (g source)) :
    StepsLike (s.withTemplate name f) (b.withSource name g) := by
  have hname := h.templates name
  unfold Session.withTemplate BareSession.withSource
  cases ht : Dictionary.get? s.templates name with
  | none =>
    cases hsource : Dictionary.get? b.sources name with
    | none => exact .reply h _
    | some source =>
      rw [ht, hsource] at hname
      cases hname
  | some t =>
    cases hsource : Dictionary.get? b.sources name with
    | none =>
      rw [ht, hsource] at hname
      cases hname
    | some source =>
      rw [ht, hsource] at hname
      cases hname with
      | some hcompile => exact hfg t source hcompile

/-- A template that is kept under a name has been compiled from some source. -/
theorem Represents.exists_compile_eq (h : s.Represents b) {name : String} {t : Template}
    (ht : Dictionary.get? s.templates name = some t) :
    ∃ source, Template.compile b.delimiters source = .ok t := by
  have hname := h.templates name
  rw [ht] at hname
  cases hsource : Dictionary.get? b.sources name with
  | none =>
    rw [hsource] at hname
    cases hname
  | some source =>
    rw [hsource] at hname
    cases hname with
    | some hcompile => exact ⟨source, hcompile⟩

/-- A template that was just compiled may be kept under a name. -/
theorem Represents.insertTemplate (h : s.Represents b) {name source : String} {t : Template}
    (ht : Template.compile b.delimiters source = .ok t) :
    Represents { s with templates := Dictionary.insert name t s.templates }
      { b with sources := Dictionary.insert name source b.sources } := by
  refine ⟨⟨h.engine.delimiters, h.engine.limit, h.engine.partials, h.engine.host,
    h.engine.faithful⟩, ?_⟩
  intro other
  show Option.Rel _ (Dictionary.get? (Dictionary.insert name t s.templates) other)
    (Dictionary.get? (Dictionary.insert name source b.sources) other)
  rw [Dictionary.get?_insert, Dictionary.get?_insert]
  split
  · exact .some ht
  · exact h.templates other

/-- Another limit, with which all templates that are kept by name are forgotten. -/
theorem Represents.setLimit (h : s.Represents b) (limit : Nat) :
    Represents { s with engine := { s.engine with limit := limit }, templates := [] }
      { b with limit := limit, sources := [] } :=
  ⟨⟨h.engine.delimiters, rfl, h.engine.partials, h.engine.host,
    h.engine.faithful.templates, h.engine.faithful.compiled⟩, fun _ => .none⟩

/-! ## Requests -/

/-- Each request is answered as by a bare session. -/
theorem Represents.answer (h : s.Represents b) (host : Host σ) (r : Request) :
    StepsLike (s.answer host r) (b.answer host r) := by
  have hengine := h.engine
  cases r with
  | addPartial name source =>
    refine .finish h .done rfl ⟨hengine.delimiters, hengine.limit, ?_, hengine.host,
      hengine.faithful.addPartial name source⟩ rfl rfl
    show Dictionary.insert name source s.engine.partials = _
    rw [hengine.partials]
  | setPartials partials =>
    exact .finish h .done rfl ⟨hengine.delimiters, hengine.limit, rfl, hengine.host,
      hengine.faithful.setPartials _⟩ rfl rfl
  | render source view =>
    simp only [Session.answer, BareSession.answer]
    cases view.value with
    | error e => exact .reply h _
    | ok v =>
      obtain ⟨a, hrun, hcalls, hmirrors⟩ := hengine.render rfl host source v
      dsimp only
      rw [perform_textAnswer hrun]
      exact .finish h _ hcalls hmirrors rfl rfl
  | renderWith source view partials =>
    simp only [Session.answer, BareSession.answer]
    obtain ⟨a, hrun, hcalls, hmirrors⟩ := hengine.renderWith rfl host source view partials
    rw [perform_textAnswer hrun]
    cases partials with
    | none => exact .finish h _ hcalls hmirrors rfl rfl
    | some partials => exact .finish h _ hcalls hmirrors rfl rfl
  | compile name source =>
    simp only [Session.answer, BareSession.answer, Engine.compile]
    rw [hengine.delimiters]
    cases ht : Template.compile b.delimiters source with
    | error e => exact .reply h _
    | ok t => exact .reply (h.insertTemplate ht) .done
  | sourceOf name =>
    refine .withTemplate h name fun t source ht => ?_
    rw [Template.source_of_compile ht]
    exact .reply h _
  | renderCompiled name view =>
    refine .withTemplate h name fun t source ht => ?_
    cases view.value with
    | error e => exact .reply h _
    | ok v =>
      obtain ⟨a, hrun, hcalls, hmirrors⟩ := hengine.renderTemplate rfl host t v
      dsimp only
      rw [perform_textAnswer hrun, BareSession.drawSource, ht]
      exact .finish h _ hcalls hmirrors rfl rfl
  | writeCompiled name view device =>
    refine .withTemplate h name fun t source ht => ?_
    cases view.value with
    | error e => exact .reply h _
    | ok v =>
      obtain ⟨a, hrun, hcalls, hmirrors⟩ := hengine.draw rfl host t v (.device device)
      have hperform : s.perform (Engine.draw host t v (.device device)) writtenAnswer =
          s.finish (b.draw host t v (.device device)).writtenAnswer a := by
        unfold perform
        rw [hrun]
        rfl
      dsimp only
      rw [hperform, BareSession.drawSource, ht]
      exact .finish h _ hcalls hmirrors rfl rfl
  | setLimit limit => exact .reply (h.setLimit limit) .done
  | showEngine => exact .shown h _
  | showTemplate name =>
    show StepsLike (s.withTemplate name fun _ => s.reply (.text s.engine.quotedTemplate)) _
    unfold withTemplate
    cases Dictionary.get? s.templates name with
    | none => exact .shown h _
    | some _ => exact .shown h _

/-- All requests of a session are answered as by a bare session, one after the other. -/
theorem Represents.answerAll (h : s.Represents b) (host : Host σ) (rs : List Request) :
    List.Forall₂ BareReply.Agrees (b.answerAll host rs).1 (s.answerAll host rs).1 ∧
      (s.answerAll host rs).2.Represents (b.answerAll host rs).2 := by
  induction rs generalizing s b with
  | nil => exact ⟨.nil, h⟩
  | cons r rs ih =>
    obtain ⟨hreply, hnext⟩ := h.answer host r
    obtain ⟨hreplies, hlast⟩ := ih hnext
    exact ⟨.cons hreply hreplies, hlast⟩

/-- A session with a new engine represents a bare one without partials. -/
theorem represents_start (delimiters : Delimiters) (limit : Nat) (host : σ) :
    (start delimiters limit host).Represents (.start delimiters limit host) := by
  refine ⟨⟨rfl, rfl, rfl, rfl, ?_, CompiledPartials.faithful_nil⟩, fun _ => .none⟩
  intro source t h
  simp [start] at h

/-- Nothing that an engine keeps can be told from its answers: every session answers as one that
compiles everything anew from the sources at hand, asks the same questions, and ends with the same
partials, the same limit and its host in the same state. -/
theorem answerAll_start_agrees (host : Host σ) (delimiters : Delimiters) (limit : Nat) (init : σ)
    (rs : List Request) :
    let s := (start delimiters limit init).answerAll host rs
    let b := (BareSession.start delimiters limit init).answerAll host rs
    List.Forall₂ BareReply.Agrees b.1 s.1 ∧ s.2.engine.partials = b.2.partials ∧
      s.2.engine.limit = b.2.limit ∧ s.2.host = b.2.host := by
  obtain ⟨hreplies, hlast⟩ := (represents_start delimiters limit init).answerAll host rs
  exact ⟨hreplies, hlast.engine.partials, hlast.engine.limit, hlast.engine.host⟩

/-- A source with a partial is rendered twice, and once more after the partial has been replaced.
Only the session that keeps what was compiled reports that it compiles, and not the second time. -/
theorem answerAll_start_agrees_of_replaced :
    let host : Host Nat := ⟨fun _ _ n => (toString n, n + 1)⟩
    let view : Value := .map [("f", .lambda ⟨0, .interpolation⟩)]
    let r : Request := .render "\x7b\x7b>p\x7d\x7d" (.direct view)
    let rs : List Request :=
      [.addPartial "p" "a\x7b\x7bf\x7d\x7d", r, r, .addPartial "p" "b\x7b\x7bf\x7d\x7d", r]
    let s := (start .standard 64 0).answerAll host rs
    let b := (BareSession.start .standard 64 0).answerAll host rs
    let calls : List Call := [⟨⟨0, .interpolation⟩, none⟩]
    List.Forall₂ BareReply.Agrees b.1 s.1 ∧
      b.1.map BareReply.answer =
        [some .done, some (.text "a0"), some (.text "a1"), some .done, some (.text "b2")] ∧
      s.1 = [⟨.done, [.addingPartial "p"], []⟩,
        ⟨.text "a0", [.compilingTemplate 6, .compilingPartial "p" 6 "", .expandingLambda 1], calls⟩,
        ⟨.text "a1", [.expandingLambda 1], calls⟩, ⟨.done, [.addingPartial "p"], []⟩,
        ⟨.text "b2", [.compilingPartial "p" 6 "", .expandingLambda 1], calls⟩] := by
  intro host view r rs s b calls
  obtain ⟨hagrees, -⟩ := answerAll_start_agrees host .standard 64 0 rs
  exact ⟨hagrees, by decide +kernel, by decide +kernel⟩

end Session

end Mustache
