import Mustache.Proofs.Bookkeeping

/-!
# What is compiled, as reported

An engine reports each text that it compiles and each replacement of partials.  These
reports account for all that it keeps: the templates that were compiled with success, and
the partials that were compiled with success since they were replaced the last time.  So
it can be told from the reports so far whether a text will be compiled again, whatever
requests have been answered, failed ones among them, and wherever a rendering stands.

Main results:

- Theorem `compiledSince_concat`: the reports that count for a partial.
- Theorem `Session.Recorded.answer`: a request keeps the accounts.
- Theorem `Session.Recorded.answerAll`: so do all requests of a session.
- Theorem `Session.compiled_once`: when a text is compiled.
-/

namespace Mustache

variable {σ : Type}

/-! ## Reports -/

namespace Event

/-- Whether no partials are replaced with the event. -/
def keepsPartials : Event → Bool
  | addingPartial _ | replacingPartials _ => false
  | _ => true

/-- Whether nothing is kept of the partial of a name after the event. -/
def forgets (name : String) : Event → Bool
  | addingPartial other => decide (name = other)
  | replacingPartials _ => true
  | _ => false

/-- Whether the event reports that the partial of a name is compiled under an indent. -/
def compilesPartial (name indent : String) : Event → Bool
  | compilingPartial other _ otherIndent => decide (name = other ∧ indent = otherIndent)
  | _ => false

/-- Whether the event reports that a template is compiled. -/
def compilesTemplate : Event → Bool
  | compilingTemplate _ => true
  | _ => false

/-- Whether the event may be reported while a template is drawn. -/
def ofRendering : Event → Bool
  | compilingPartial .. | missingPartial _ | expandingLambda _ => true
  | _ => false

theorem compilesTemplate_of_ofRendering {e : Event} (h : e.ofRendering = true) :
    e.compilesTemplate = false := by
  cases e <;> first | rfl | cases h

theorem keepsPartials_of_ofRendering {e : Event} (h : e.ofRendering = true) :
    e.keepsPartials = true := by
  cases e <;> first | rfl | cases h

end Event

/-- Whether a partial was reported to be compiled under an indent since its name was forgotten the
last time. -/
def compiledSince (name indent : String) (log : List Event) : Bool :=
  (log.reverse.takeWhile fun e => !e.forgets name).any (Event.compilesPartial name indent)

/-- A new report counts itself, and those in front of it count unless it forgets the name. -/
theorem compiledSince_concat (name indent : String) (log : List Event) (e : Event) :
    compiledSince name indent (log ++ [e]) =
      (!e.forgets name && (e.compilesPartial name indent || compiledSince name indent log)) := by
  unfold compiledSince
  rw [List.reverse_append]
  show ((e :: log.reverse).takeWhile _).any _ = _
  rw [List.takeWhile_cons]
  cases e.forgets name <;> rfl

/-! ## Accounts of partials -/

/-- Whether the partial of a name compiles under an indent. -/
def partialCompiles (delimiters : Delimiters) (partials : Dictionary String)
    (name indent : String) : Bool :=
  match Dictionary.get? partials name with
  | none => false
  | some source => (Template.compile delimiters (Template.indented indent source)).isOk

theorem partialCompiles_eq {delimiters : Delimiters} {partials : Dictionary String}
    {name source : String} (h : Dictionary.get? partials name = some source) (indent : String) :
    partialCompiles delimiters partials name indent =
      (Template.compile delimiters (Template.indented indent source)).isOk := by
  rw [partialCompiles, h]

/-- What is kept of the partials is what the reports tell. -/
def CompiledPartials.Accounted (delimiters : Delimiters) (partials : Dictionary String)
    (compiled : CompiledPartials) (log : List Event) : Prop :=
  ∀ name indent, (compiled.find? name indent).isSome =
    (compiledSince name indent log && partialCompiles delimiters partials name indent)

namespace CompiledPartials.Accounted

variable {delimiters : Delimiters} {partials : Dictionary String} {compiled : CompiledPartials}
  {log : List Event} {name indent source : String}

/-- A report that concerns no partial changes nothing. -/
theorem concat (h : Accounted delimiters partials compiled log) {e : Event}
    (hforgets : ∀ name, e.forgets name = false)
    (hcompiles : ∀ name indent, e.compilesPartial name indent = false) :
    Accounted delimiters partials compiled (log ++ [e]) := by
  intro name indent
  rw [compiledSince_concat, hforgets, hcompiles]
  exact h name indent

/-- A partial that does not compile is not kept, although it is reported. -/
theorem flawed (h : Accounted delimiters partials compiled log)
    (hflawed : partialCompiles delimiters partials name indent = false) (size : Nat) :
    Accounted delimiters partials compiled (log ++ [.compilingPartial name size indent]) := by
  intro other otherIndent
  rw [h, compiledSince_concat, Event.compilesPartial]
  by_cases heq : other = name ∧ otherIndent = indent
  · obtain ⟨rfl, rfl⟩ := heq
    rw [hflawed, Bool.and_false, Bool.and_false]
  · rw [decide_eq_false heq]
    rfl

/-- A partial that compiles is kept. -/
theorem add (h : Accounted delimiters partials compiled log)
    (hcompiles : partialCompiles delimiters partials name indent = true) (size : Nat)
    (t : Template) :
    Accounted delimiters partials (compiled.add name indent t)
      (log ++ [.compilingPartial name size indent]) := by
  intro other otherIndent
  rw [find?_add, compiledSince_concat, Event.compilesPartial]
  by_cases heq : other = name ∧ otherIndent = indent
  · rw [if_pos heq, decide_eq_true heq, heq.1, heq.2, hcompiles]
    rfl
  · rw [if_neg heq, decide_eq_false heq, h]
    rfl

/-- A partial that is replaced is forgotten, and the others are kept. -/
theorem addPartial (h : Accounted delimiters partials compiled log) (name source : String) :
    Accounted delimiters (Dictionary.insert name source partials)
      (Dictionary.erase name compiled) (log ++ [.addingPartial name]) := by
  intro other indent
  have hfind := h other indent
  rw [find?] at hfind
  rw [compiledSince_concat, Event.forgets, find?, Dictionary.get?_erase]
  by_cases heq : other = name
  · rw [if_pos heq, decide_eq_true heq]
    rfl
  · have hsame : partialCompiles delimiters (Dictionary.insert name source partials) other indent =
        partialCompiles delimiters partials other indent := by
      unfold partialCompiles
      rw [Dictionary.get?_insert, if_neg heq]
    rw [if_neg heq, decide_eq_false heq, hfind, hsame]
    rfl

/-- Where all partials are replaced, all are forgotten. -/
theorem setPartials (delimiters : Delimiters) (partials : Dictionary String) (log : List Event)
    (count : Nat) : Accounted delimiters partials [] (log ++ [.replacingPartials count]) := by
  intro name indent
  rw [compiledSince_concat]
  rfl

end CompiledPartials.Accounted

/-! ## Engines at work -/

namespace Event

/-- To what was reported at the start, only reports of this kind have been added. -/
def Extends (kind : Event → Bool) (start events : List Event) : Prop :=
  ∃ new, events = start ++ new ∧ ∀ e ∈ new, kind e = true

namespace Extends

variable {kind : Event → Bool} {start middle events : List Event}

theorem refl (kind : Event → Bool) (events : List Event) : Extends kind events events :=
  ⟨[], (List.append_nil _).symm, by simp⟩

theorem trans (h : Extends kind start middle) (h' : Extends kind middle events) :
    Extends kind start events := by
  obtain ⟨new, rfl, hnew⟩ := h
  obtain ⟨new', rfl, hnew'⟩ := h'
  refine ⟨new ++ new', List.append_assoc _ _ _, ?_⟩
  intro e he
  exact (List.mem_append.1 he).elim (hnew e) (hnew' e)

theorem concat (h : Extends kind start events) {e : Event} (he : kind e = true) :
    Extends kind start (events ++ [e]) :=
  h.trans ⟨[e], rfl, by simpa using he⟩

/-- Reports of one kind may be of another kind as well. -/
theorem mono (h : Extends kind start events) {other : Event → Bool}
    (hother : ∀ e : Event, kind e = true → other e = true) : Extends other start events := by
  obtain ⟨new, rfl, hnew⟩ := h
  exact ⟨new, rfl, fun e he => hother e (hnew e he)⟩

/-- What is not of this kind stays the same. -/
theorem filter_eq (h : Extends kind start events) {keep : Event → Bool}
    (hkeep : ∀ e : Event, kind e = true → keep e = false) :
    events.filter keep = start.filter keep := by
  obtain ⟨new, rfl, hnew⟩ := h
  have hnone : new.filter keep = [] := by
    rw [List.filter_eq_nil_iff]
    intro e he
    rw [hkeep e (hnew e he)]
    exact Bool.false_ne_true
  rw [List.filter_append, hnone, List.append_nil]

end Extends

end Event

namespace Engine

/-- The partials that the engine keeps are those that the reports tell. -/
def Accounted (e : Engine) (log : List Event) : Prop :=
  e.compiled.Accounted e.delimiters e.partials log

/-- The accounts are kept through everything that a rendering of the engine does. -/
theorem maintains_accounted (e : Engine) (host : Host σ) (past : List Event) :
    (e.setting host).Maintains fun compiled events =>
      compiled.Accounted e.delimiters e.partials (past ++ events) := by
  refine maintains_setting ?_ ?_ ?_ ?_ host
  · intro compiled events name _ h
    rw [← List.append_assoc]
    exact h.concat (fun _ => rfl) fun _ _ => rfl
  · intro compiled events name indent source failure hstored hcompile h
    have hflawed : partialCompiles e.delimiters e.partials name indent = false := by
      rw [partialCompiles_eq hstored, hcompile]
      rfl
    rw [← List.append_assoc]
    exact h.flawed hflawed _
  · intro compiled events name indent source t hstored hcompile h
    have hcompiles : partialCompiles e.delimiters e.partials name indent = true := by
      rw [partialCompiles_eq hstored, hcompile]
      rfl
    rw [← List.append_assoc]
    exact h.add hcompiles _ t
  · intro compiled events size h
    rw [← List.append_assoc]
    exact h.concat (fun _ => rfl) fun _ _ => rfl

/-- A rendering of the engine adds its own reports only. -/
theorem maintains_extends (e : Engine) (host : Host σ) (start : List Event) :
    (e.setting host).Maintains fun _ events => Event.Extends Event.ofRendering start events :=
  maintains_setting (fun _ _ _ _ h => h.concat rfl) (fun _ _ _ _ _ _ _ _ h => h.concat rfl)
    (fun _ _ _ _ _ _ _ _ h => h.concat rfl) (fun _ _ _ h => h.concat rfl) host

/-- What an operation of an engine has reached, whether it failed or not. -/
def reached {α : Type} : EStateM.Result Error (Activity σ) α → Activity σ
  | .ok _ a => a
  | .error _ a => a

/-- The template of a source is kept, or else it is reported to be compiled, and kept if it
compiles. -/
theorem templateOf_cases (source : String) (a : Activity σ) :
    (Dictionary.get? a.engine.templates source).isSome ∧ reached (templateOf source a) = a ∨
    Dictionary.get? a.engine.templates source = none ∧
      (reached (templateOf source a)).events =
        a.events ++ [.compilingTemplate (Event.sizeOf source)] ∧
      ∃ templates,
        (reached (templateOf source a)).engine = { a.engine with templates := templates } ∧
        ∀ other, Dictionary.get? templates other =
          if other = source then (Template.compile a.engine.delimiters source).toOption
          else Dictionary.get? a.engine.templates other := by
  rw [templateOf_apply]
  cases hkept : Dictionary.get? a.engine.templates source with
  | some t => exact .inl ⟨rfl, rfl⟩
  | none =>
    dsimp only
    rw [Engine.compile]
    refine .inr ⟨rfl, ?_⟩
    cases Template.compile a.engine.delimiters source with
    | ok t => exact ⟨rfl, _, rfl, fun other => Dictionary.get?_insert _ _ _ _⟩
    | error e =>
      refine ⟨rfl, _, rfl, fun other => ?_⟩
      split
      · rename_i heq
        rw [heq, hkept]
        rfl
      · rfl

end Engine

/-! ## Inclusions -/

/-- What is reported where a partial is included: that it is missing, or that it is compiled, unless
it compiles and was compiled since its name was forgotten the last time. -/
def Engine.reportsOfInclusion (e : Engine) (log : List Event) (name indent : String) : List Event :=
  match Dictionary.get? e.partials name with
  | none => [.missingPartial name]
  | some source =>
    if compiledSince name indent log && partialCompiles e.delimiters e.partials name indent then []
    else [.compilingPartial name (Event.sizeOf source) indent]

/-- Loading a partial is reported as the accounts say. -/
theorem Engine.leaves_load {e : Engine} {p : Progress σ} {log : List Event}
    (h : p.compiled.Accounted e.delimiters e.partials log) (host : Host σ) (name indent : String) :
    Render.Leaves (fun _ events => events = p.events ++ e.reportsOfInclusion log name indent)
      ((e.setting host).load name indent p) := by
  have hkept := h name indent
  show Render.Leaves _ (Render.partialTemplate e.delimiters e.partials name indent p)
  rw [Render.partialTemplate_apply]
  unfold reportsOfInclusion
  cases hfind : p.compiled.find? name indent with
  | some t =>
    rw [hfind] at hkept
    cases hstored : Dictionary.get? e.partials name with
    | none =>
      rw [partialCompiles, hstored, Bool.and_false] at hkept
      cases hkept
    | some source =>
      rw [← hkept]
      exact (List.append_nil _).symm
  | none =>
    rw [hfind] at hkept
    cases hstored : Dictionary.get? e.partials name with
    | none => rfl
    | some source =>
      rw [← hkept]
      dsimp only
      rw [Render.compilePartial_apply]
      dsimp only
      cases Template.compile e.delimiters (Template.indented indent source) <;> rfl

namespace Stepwise

/-- Where an inclusion comes next, a turn keeps and reports what loading the partial does. -/
theorem Moment.satisfies_of_inclusion {s : Setting σ} {m : Moment σ} {ctx : Context}
    {name indent : String} {rest : Agenda} {P : CompiledPartials → List Event → Prop}
    (hagenda : m.page.agenda = (ctx, .inclusion name indent) :: rest)
    (h : Render.Leaves P (s.load name indent m.progress)) (bound : Option Nat) :
    (m.turn s bound).progress.Satisfies P := by
  have hmove : m.move s = m.follow s ctx rest (.effect (.load name indent)) := by
    unfold move
    rw [hagenda]
    rfl
  have hperform : Render.perform s (.load name indent) m.progress =
      match s.load name indent m.progress with
      | .ok found q => .ok (found.map (Insertion.inclusion name)) q
      | .error e q => .error (e.blame name) q := by
    show EStateM.bind (Render.mapError (Error.blame name) (s.load name indent)) _ m.progress = _
    unfold EStateM.bind Render.mapError
    cases s.load name indent m.progress <;> rfl
  unfold turn
  rw [hmove, follow, hperform]
  cases hload : s.load name indent m.progress with
  | error e q =>
    rw [hload] at h
    exact h
  | ok found q =>
    rw [hload] at h
    cases found with
    | none => exact h
    | some t =>
      dsimp only [Option.map]
      split
      · exact h
      · exact h

end Stepwise

/-! ## Requests -/

/-- Whether the request renders the source. -/
def Request.renders (source : String) (r : Request) : Bool :=
  r.source?.any fun asked => asked.1 == source

/-- Whether the source compiles and was reported to be compiled for a request that renders it. -/
def compiledBefore (delimiters : Delimiters) (source : String)
    (exchanges : List (Request × Reply)) : Bool :=
  (exchanges.any fun x => x.1.renders source && x.2.events.any Event.compilesTemplate) &&
    (Template.compile delimiters source).isOk

namespace Session

variable {host : Host σ} {s : Session σ} {r : Request} {step : Reply × Session σ}

/-- All that was reported in exchanges of requests and replies. -/
def reports (exchanges : List (Request × Reply)) : List Event :=
  exchanges.flatMap fun x => x.2.events

/-- What a request does to the templates that the engine keeps.  Nothing is compiled, and then the
source of the request is kept if it is not empty, or the source is compiled, and then it has not
been kept before. -/
inductive Compiling (s : Session σ) (r : Request) (step : Reply × Session σ) : Prop
  | nothing (reported : step.1.events.filter Event.compilesTemplate = [])
      (same : step.2.engine.templates = s.engine.templates)
      (kept : ∀ asked ∈ r.source?, asked.1 ≠ "" →
        (Dictionary.get? s.engine.templates asked.1).isSome)
  | source {source : String} (asked : r.source?.map Prod.fst = some source) (nonempty : source ≠ "")
      (new : Dictionary.get? s.engine.templates source = none)
      (reported : step.1.events.filter Event.compilesTemplate =
        [.compilingTemplate (Event.sizeOf source)])
      (kept : ∀ other, Dictionary.get? step.2.engine.templates other =
        if other = source then (Template.compile s.engine.delimiters source).toOption
        else Dictionary.get? s.engine.templates other)

theorem prepared_reports (s : Session σ) (partials : Option (List (String × String))) :
    (s.prepared partials).events.filter Event.compilesTemplate = [] ∧
      (s.prepared partials).engine.templates = s.engine.templates ∧
      (s.prepared partials).engine.delimiters = s.engine.delimiters := by
  cases partials <;> exact ⟨rfl, rfl, rfl⟩

/-- Looking for the template of a source is all that a request does to the templates that are
kept. -/
theorem Compiling.of_templateOf {source : String} {view : Value}
    {partials : Option (List (String × String))} {a : Engine.Activity σ}
    (asked : r.source? = some (source, view, partials)) (nonempty : source ≠ "")
    (found : Engine.reached (Engine.templateOf source (s.prepared partials)) = a)
    (hevents : step.1.events.filter Event.compilesTemplate =
      a.events.filter Event.compilesTemplate)
    (htemplates : step.2.engine.templates = a.engine.templates) : s.Compiling r step := by
  obtain ⟨hprepared, hsame, hdelimiters⟩ := s.prepared_reports partials
  rcases Engine.templateOf_cases source (s.prepared partials) with ⟨hkept, hreached⟩ |
    ⟨hnew, hreported, templates, hengine, hget⟩
  · rw [hreached] at found
    subst found
    refine .nothing (hevents.trans hprepared) (htemplates.trans hsame) ?_
    rw [asked]
    rintro _ ⟨⟩ -
    rwa [← hsame]
  · rw [found] at hreported hengine
    rw [hsame] at hnew hget
    rw [hdelimiters] at hget
    refine .source (by rw [asked]; rfl) nonempty hnew ?_ ?_
    · rw [hevents, hreported, List.filter_append, hprepared]
      rfl
    · rw [htemplates, hengine]
      exact hget

/-- Drawing a template changes nothing of the engine but the partials that it keeps, and adds
reports of a rendering only. -/
theorem extends_of_draw {a b : Engine.Activity σ} {t : Template} {view : Value}
    {sink taken : Sink} {failure : Option Error}
    (h : Engine.draw host t view sink a = .ok (failure, taken) b) :
    b.engine = { a.engine with compiled := b.engine.compiled } ∧
      Event.Extends Event.ofRendering a.events b.events :=
  Engine.satisfies_of_draw (a.engine.maintains_extends host a.events) (.refl _ a.events) h

/-- All that a request does to the templates that are kept. -/
theorem Conduct.compiling (h : s.Conduct host r step) : s.Compiling r step := by
  cases h with
  | idle answer limit templates notSource keeps =>
    refine .nothing rfl rfl ?_
    rw [notSource]
    rintro asked ⟨⟩
  | adding name source => exact .nothing rfl rfl (by rintro asked ⟨⟩)
  | replacing partials => exact .nothing rfl rfl (by rintro asked ⟨⟩)
  | @empty _ view partials asked =>
    obtain ⟨hreports, htemplates, -⟩ := s.prepared_reports partials
    refine .nothing hreports htemplates ?_
    rw [asked]
    rintro _ ⟨⟩ hne
    exact absurd rfl hne
  | flawed asked nonempty failed =>
    exact .of_templateOf asked nonempty (congrArg Engine.reached failed) rfl rfl
  | @drawn _ t view sink taken a b failure answer draws done =>
    obtain ⟨hengine, hextends⟩ := extends_of_draw done
    have hevents : b.events.filter Event.compilesTemplate =
        a.events.filter Event.compilesTemplate :=
      hextends.filter_eq fun _ => Event.compilesTemplate_of_ofRendering
    have htemplates : b.engine.templates = a.engine.templates := by rw [hengine]
    cases draws with
    | source asked nonempty found =>
      exact .of_templateOf asked nonempty (congrArg Engine.reached found) hevents htemplates
    | named asked found =>
      have hnone : r.source? = none := by
        cases r <;> first | rfl | cases asked
      refine .nothing hevents htemplates ?_
      rw [hnone]
      rintro _ ⟨⟩

/-! ### Partials -/

/-- Replacing partials before a source is rendered keeps the accounts. -/
theorem accounted_prepared {past : List Event} (h : s.engine.Accounted past)
    (partials : Option (List (String × String))) :
    (s.prepared partials).engine.Accounted (past ++ (s.prepared partials).events) := by
  cases partials with
  | none =>
    show s.engine.Accounted (past ++ [])
    rwa [List.append_nil]
  | some partials => exact .setPartials _ _ past _

/-- Looking for the template of a source keeps the accounts, whether it compiles or not. -/
theorem accounted_of_templateOf {past : List Event} {source : String} {a b : Engine.Activity σ}
    (h : a.engine.Accounted (past ++ a.events))
    (found : Engine.reached (Engine.templateOf source a) = b) :
    b.engine.Accounted (past ++ b.events) := by
  rcases Engine.templateOf_cases source a with ⟨-, hreached⟩ | ⟨-, hreported, _, hengine, -⟩
  · rw [hreached] at found
    subst found
    exact h
  · rw [found] at hreported hengine
    unfold Engine.Accounted
    rw [hengine, hreported, ← List.append_assoc]
    exact h.concat (fun _ => rfl) fun _ _ => rfl

/-- Where a template is drawn, the accounts are kept. -/
theorem Draws.accounted {past : List Event} (h : s.engine.Accounted past) {t : Template}
    {view : Value} {sink : Sink} {a : Engine.Activity σ} (hdraws : s.Draws r t view sink a) :
    a.engine.Accounted (past ++ a.events) := by
  cases hdraws with
  | source _ _ found =>
    exact accounted_of_templateOf (accounted_prepared h _) (congrArg Engine.reached found)
  | named _ _ => exact accounted_prepared h none

/-- A request keeps the accounts of partials. -/
theorem Conduct.accounted (h : s.Conduct host r step) {past : List Event}
    (hpast : s.engine.Accounted past) : step.2.engine.Accounted (past ++ step.1.events) := by
  cases h with
  | idle answer limit templates notSource keeps =>
    show s.engine.Accounted (past ++ [])
    rwa [List.append_nil]
  | adding name source => exact CompiledPartials.Accounted.addPartial hpast name source
  | replacing partials => exact accounted_prepared hpast _
  | empty asked => exact accounted_prepared hpast _
  | flawed asked nonempty failed =>
    exact accounted_of_templateOf (accounted_prepared hpast _) (congrArg Engine.reached failed)
  | @drawn _ t view sink taken a b failure answer draws done =>
    have hmaintains := a.engine.maintains_accounted host past
    obtain ⟨hengine, haccounted⟩ :=
      Engine.satisfies_of_draw hmaintains (draws.accounted hpast) done
    show b.engine.Accounted (past ++ b.events)
    unfold Engine.Accounted
    rw [hengine]
    exact haccounted

/-- Before a source is rendered, it is reported what partials the request replaces. -/
theorem events_prepared {source : String} {view : Value}
    {partials : Option (List (String × String))}
    (asked : r.source? = some (source, view, partials)) (s : Session σ) :
    (s.prepared partials).events = r.replacements := by
  cases r with
  | render source' view' =>
    cases hvalue : view'.value with
    | error e =>
      rw [Request.source?, hvalue] at asked
      cases asked
    | ok v =>
      rw [Request.source?, hvalue] at asked
      cases asked
      rfl
  | renderWith source' view' partials' =>
    cases asked
    cases partials <;> rfl
  | _ => cases asked

/-- Looking for the template of a source replaces no partials. -/
theorem keepsPartials_of_templateOf {source : String} {a b : Engine.Activity σ}
    (found : Engine.reached (Engine.templateOf source a) = b) :
    b.engine.delimiters = a.engine.delimiters ∧
      Event.Extends Event.keepsPartials a.events b.events := by
  rcases Engine.templateOf_cases source a with ⟨-, hreached⟩ | ⟨-, hreported, _, hengine, -⟩
  · rw [← found, hreached]
    exact ⟨rfl, .refl _ _⟩
  · rw [found] at hreported hengine
    rw [hengine]
    exact ⟨rfl, _, hreported, by simp [Event.keepsPartials]⟩

/-- First of all, it is reported what partials a request replaces, and then no other replacement.
The pair of the engine stays the same. -/
theorem Conduct.replacements (h : s.Conduct host r step) :
    step.2.engine.delimiters = s.engine.delimiters ∧
      Event.Extends Event.keepsPartials r.replacements step.1.events := by
  cases h with
  | idle answer limit templates notSource keeps => exact ⟨rfl, keeps ▸ .refl _ _⟩
  | adding name source => exact ⟨rfl, .refl _ _⟩
  | replacing partials => exact ⟨rfl, .refl _ _⟩
  | @empty _ view partials asked =>
    rw [← events_prepared asked s]
    exact ⟨(s.prepared_reports partials).2.2, .refl _ _⟩
  | @flawed _ source view partials e a asked nonempty failed =>
    obtain ⟨hdelimiters, hevents⟩ := keepsPartials_of_templateOf (congrArg Engine.reached failed)
    rw [← events_prepared asked s]
    exact ⟨hdelimiters.trans (s.prepared_reports partials).2.2, hevents⟩
  | @drawn _ t view sink taken a b failure answer draws done =>
    obtain ⟨hengine, hextends⟩ := extends_of_draw done
    have hdrawn : Event.Extends Event.keepsPartials a.events b.events :=
      hextends.mono fun _ => Event.keepsPartials_of_ofRendering
    show b.engine.delimiters = _ ∧ Event.Extends _ _ b.events
    rw [hengine]
    cases draws with
    | @source source _ partials _ _ asked nonempty found =>
      obtain ⟨hdelimiters, hevents⟩ := keepsPartials_of_templateOf (congrArg Engine.reached found)
      rw [← events_prepared asked s]
      exact ⟨hdelimiters.trans (s.prepared_reports partials).2.2, hevents.trans hdrawn⟩
    | named asked found =>
      have hnone : r.replacements = [] := by
        cases r <;> first | rfl | cases asked
      rw [hnone]
      exact ⟨rfl, hdrawn⟩

/-! ### Accounts of a session -/

/-- All that an engine keeps is what has been reported in the exchanges so far. -/
structure Recorded (pair : Delimiters) (s : Session σ) (exchanges : List (Request × Reply)) :
    Prop where
  delimiters : s.engine.delimiters = pair
  templates : ∀ source, (Dictionary.get? s.engine.templates source).isSome =
    compiledBefore pair source exchanges
  partials : s.engine.Accounted (reports exchanges)

variable {pair : Delimiters} {exchanges : List (Request × Reply)}

/-- One more exchange counts if its request renders the source and the source is compiled for it. -/
theorem compiledBefore_concat (pair : Delimiters) (source : String)
    (exchanges : List (Request × Reply)) (r : Request) (reply : Reply) :
    compiledBefore pair source (exchanges ++ [(r, reply)]) =
      (compiledBefore pair source exchanges ||
        (r.renders source && !(reply.events.filter Event.compilesTemplate).isEmpty) &&
          (Template.compile pair source).isOk) := by
  have hany : reply.events.any Event.compilesTemplate =
      !(reply.events.filter Event.compilesTemplate).isEmpty := by
    rw [Bool.eq_iff_iff]
    simp
  unfold compiledBefore
  rw [List.any_append, ← hany, Bool.and_or_distrib_right]
  simp

/-- A request keeps the accounts. -/
theorem Recorded.answer (h : s.Recorded pair exchanges) (host : Host σ) (r : Request) :
    (s.answer host r).2.Recorded pair (exchanges ++ [(r, (s.answer host r).1)]) := by
  have hconduct := s.conduct host r
  refine ⟨hconduct.replacements.1.trans h.delimiters, ?_, ?_⟩
  · intro source
    rw [compiledBefore_concat, ← h.templates]
    cases hconduct.compiling with
    | nothing reported same _ =>
      rw [reported, same]
      simp
    | @source compiled asked nonempty new reported kept =>
      have hrenders : r.renders source = decide (source = compiled) := by
        obtain ⟨found, hfound, rfl⟩ := Option.map_eq_some_iff.1 asked
        rw [Request.renders, hfound, Option.any_some]
        exact decide_eq_decide.2 eq_comm
      rw [kept, reported, h.delimiters, hrenders]
      by_cases heq : source = compiled
      · rw [if_pos heq, heq, new, decide_eq_true rfl]
        cases Template.compile pair compiled <;> rfl
      · rw [if_neg heq, decide_eq_false heq, Bool.false_and, Bool.false_and, Bool.or_false]
  · have hpartials := hconduct.accounted h.partials
    unfold reports at hpartials ⊢
    rw [List.flatMap_append]
    simpa using hpartials

/-- The requests of a session keep the accounts. -/
theorem Recorded.answerAll (h : s.Recorded pair exchanges) (host : Host σ) (rs : List Request) :
    (s.answerAll host rs).2.Recorded pair (exchanges ++ rs.zip (s.answerAll host rs).1) := by
  induction rs generalizing s exchanges with
  | nil =>
    rw [List.zip_nil_left, List.append_nil]
    exact h
  | cons r rs ih =>
    have hrest := ih (h.answer host r)
    rw [List.append_assoc] at hrest
    exact hrest

/-- Nothing is kept at the start. -/
theorem recorded_start (pair : Delimiters) (limit : Nat) (init : σ) :
    (start pair limit init).Recorded pair [] :=
  ⟨rfl, fun _ => rfl, fun _ _ => rfl⟩

/-- Every text is compiled once as long as it stays valid.  After any requests, a source that is
rendered is reported to be compiled exactly if it was not compiled with success for an earlier
request that renders it.  A rendering answers its request, and is a walk to a last moment; wherever
a partial is included on this walk, it is reported to be missing exactly if it has no source, and
else to be compiled, unless it was compiled with success since its name was forgotten.  A name is
forgotten where a request replaces its partial or all partials, which is reported first of all, and
for no other reason; what is kept of the other partials stays. -/
theorem compiled_once (host : Host σ) (pair : Delimiters) (limit : Nat) (init : σ)
    (history : List Request) :
    let run := (start pair limit init).answerAll host history
    let s := run.2
    let past := history.zip run.1
    (∀ r source view partials, r.source? = some (source, view, partials) → source ≠ "" →
      (s.answer host r).1.events.filter Event.compilesTemplate =
        if compiledBefore pair source past then []
        else [.compilingTemplate (Event.sizeOf source)]) ∧
    (∀ r t view sink a, s.Draws r t view sink a →
      let setting := a.engine.setting host
      let first := Stepwise.Moment.start t view (a.begin sink)
      (∃ failure taken b answer, Engine.draw host t view sink a = .ok (failure, taken) b ∧
        s.answer host r = s.finish answer b) ∧
      (∃ last, Stepwise.Walk setting (some a.engine.limit) first last ∧
        (last.turn setting (some a.engine.limit)).outcome? =
          some (t.render setting view (a.begin sink))) ∧
      ∀ m, Stepwise.Walk setting (some a.engine.limit) first m →
        ∀ ctx name indent rest, m.page.agenda = (ctx, .inclusion name indent) :: rest →
          (m.turn setting (some a.engine.limit)).progress.events = m.progress.events ++
            a.engine.reportsOfInclusion (reports past ++ m.progress.events) name indent) ∧
    (∀ r, Event.Extends Event.keepsPartials r.replacements (s.answer host r).1.events) ∧
    ∀ name source other indent, other ≠ name →
      (s.answer host (.addPartial name source)).2.engine.compiled.find? other indent =
        s.engine.compiled.find? other indent := by
  intro run s past
  have hrecorded : s.Recorded pair past := (recorded_start pair limit init).answerAll host history
  refine ⟨?_, ?_, ?_, ?_⟩
  · intro r source view partials asked hne
    have htemplates := hrecorded.templates source
    cases (s.conduct host r).compiling with
    | nothing reported same kept =>
      rw [kept _ asked hne] at htemplates
      rw [reported, ← htemplates, if_pos rfl]
    | @source compiled hcompiled nonempty new reported kept =>
      rw [asked] at hcompiled
      cases hcompiled
      rw [new] at htemplates
      rw [reported, ← htemplates, if_neg (by simp)]
  · intro r t view sink a hdraws setting first
    refine ⟨hdraws.answer_eq host, Stepwise.exists_walk_render setting t view (a.begin sink), ?_⟩
    intro m hwalk ctx name indent rest hagenda
    have hstart := hdraws.accounted hrecorded.partials
    have haccounted := hwalk.satisfies (a.engine.maintains_accounted host (reports past)) hstart
    exact Stepwise.Moment.satisfies_of_inclusion hagenda
      (Engine.leaves_load haccounted host name indent) _
  · exact fun r => (s.conduct host r).replacements.2
  · intro name source other indent hne
    show CompiledPartials.find? (Dictionary.erase name s.engine.compiled) other indent = _
    rw [CompiledPartials.find?, Dictionary.get?_erase, if_neg hne]
    rfl

/-- A source with a partial is rendered once and once more.  The source and the partial are compiled
the first time, and the source is not compiled again. -/
theorem compiled_once_of_two :
    let host : Host Unit := ⟨fun _ _ u => ("", u)⟩
    let source := "\x7b\x7b>p\x7d\x7d"
    let r : Request := .render source (.direct .null)
    let t : Template := ⟨source, .standard, [.inclusion "p" ""]⟩
    let s := ((start .standard 64 ()).answerAll host [.addPartial "p" "x"]).2
    let s' := ((start .standard 64 ()).answerAll host [.addPartial "p" "x", r]).2
    let a : Engine.Activity Unit := { s.prepared none with
      engine := { s.engine with templates := Dictionary.insert source t s.engine.templates }
      events := [.compilingTemplate (Event.sizeOf source)] }
    let first := Stepwise.Moment.start t .null (a.begin .empty)
    r.source? = some (source, .null, none) ∧ source ≠ "" ∧
    (s.answer host r).1.events.filter Event.compilesTemplate = [.compilingTemplate 6] ∧
    (s'.answer host r).1.events.filter Event.compilesTemplate = [] ∧
    s.Draws r t .null .empty a ∧ first.page.agenda = [(Context.ofView .null, .inclusion "p" "")] ∧
    (first.turn (a.engine.setting host) (some a.engine.limit)).progress.events =
      [.compilingTemplate 6, .compilingPartial "p" 1 ""] ∧
    (∃ last, Stepwise.Walk (a.engine.setting host) (some a.engine.limit) first last ∧
      (last.turn (a.engine.setting host) (some a.engine.limit)).outcome? =
        some (t.render (a.engine.setting host) .null (a.begin .empty))) ∧
    (s.answer host r).1 =
      ⟨.text "x", [.compilingTemplate 6, .compilingPartial "p" 1 ""], []⟩ ∧
    "q" ≠ "p" ∧ (s'.answer host (.addPartial "q" "y")).2.engine.compiled.find? "p" "" =
      s'.engine.compiled.find? "p" "" := by
  intro host source r t s s' a first
  let tokens : List Token :=
    [⟨.inclusion ⟨3, ['p']⟩ [], ⟨0, ['{', '{', '>', 'p', '}', '}']⟩, true⟩]
  have hstream : Token.ofSource .standard source.toList = .ok ⟨tokens, .standard⟩ := by
    decide +kernel
  have hsettle : Token.settle tokens = tokens := by decide +kernel
  have hnested : Node.ofTokens (Token.settle tokens) =
      .ok [.inclusion ⟨3, ['p']⟩ [] ⟨0, ['{', '{', '>', 'p', '}', '}']⟩] := by
    rw [hsettle]
    rfl
  have hcompile : Template.compile .standard source = .ok t :=
    Template.compile_of_ofTokens hstream hnested
  have hsource : r.source? = some (source, .null, none) := rfl
  have hne : source ≠ "" := by decide
  have hdraws : s.Draws r t .null .empty a :=
    .source hsource hne (Engine.templateOf_of_compile rfl hcompile)
  obtain ⟨hfirst, hincluded, -, -⟩ := compiled_once host .standard 64 () [.addPartial "p" "x"]
  obtain ⟨hagain, -, -, hothers⟩ := compiled_once host .standard 64 () [.addPartial "p" "x", r]
  obtain ⟨-, hwalk, hmoments⟩ := hincluded r t .null .empty a hdraws
  refine ⟨hsource, hne, ?_, ?_, hdraws, rfl, ?_, hwalk, by decide +kernel, by decide,
    hothers "q" "y" "p" "" (by decide)⟩
  · rw [hfirst r source .null none hsource hne]
    decide +kernel
  · rw [hagain r source .null none hsource hne]
    decide +kernel
  · rw [hmoments first .refl _ "p" "" [] rfl]
    decide +kernel

end Session

end Mustache
