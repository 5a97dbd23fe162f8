import Mustache.Proofs.Caching
import Mustache.Proofs.SectionText

/-!
# What all errors have in common

Errors arise in few places: a source does not compile, the value of a variable has no
text, the limit is reached, a device refuses a piece, or data cannot be converted.  On
its way out of partials an error may be given the name of one.  A property that errors
have where they arise, and that naming a partial preserves, is therefore a property of
all errors that a session answers with.

Main results:

- Theorem `Render.Ensures.bind`: parts of a rendering follow each other.
- Theorem `Error.Invariant.runTemplate`: a compiled template fails with errors that have
  the property.
- Theorem `Session.invariant_of_answerAll`: so does every request of a session.
-/

namespace Mustache

/-! ## Invariants -/

/-- The template is what a source compiles to. -/
def Template.IsCompiled (t : Template) : Prop :=
  ∃ pair source, compile pair source = .ok t

/-- All errors have the property where they arise, and keep it when a partial is named. -/
structure Error.Invariant (P : Error → Prop) : Prop where
  limit : ∀ limit, P (.includeLimit limit)
  device : ∀ reason, P (.device reason)
  conversion : ∀ cause, P (.conversion cause)
  compile : ∀ pair source e, Template.compile pair source = .error e → P e
  refuse : ∀ (t : Template), t.IsCompiled → ∀ escaping target,
    (Instr.interpolation escaping target).Within t.program → ∀ found,
      P (.flawed ⟨⟨.notRenderable found, target.name.span⟩, t.source, none⟩)
  blame : ∀ name e, P e → P (e.blame name)

/-- Naming the owner of a source preserves an invariant. -/
theorem Error.Invariant.blameOwner {P : Error → Prop} (hP : Error.Invariant P)
    (name source : String) {e : Error} (h : P e) : P (e.blameOwner name source) := by
  cases e with
  | flawed finding =>
    rw [Error.blameOwner]
    split
    · exact hP.blame name _ h
    · exact h
  | _ => exact h

namespace Render

variable {σ α β : Type} {P : Error → Prop} {Q : α → Prop} {R : β → Prop}

/-! ## Parts of a rendering -/

/-- Results of a part of a rendering have a property, and so have its errors. -/
def Ensures (P : Error → Prop) (Q : α → Prop) (x : Render σ α) : Prop :=
  ∀ p, match x p with
    | .ok a _ => Q a
    | .error e _ => P e

/-- A part of a rendering without a result has errors with a property. -/
abbrev FailsWith (P : Error → Prop) (x : Render σ Unit) : Prop :=
  Ensures P (fun _ => True) x

/-- Compiled templates are run with errors that have a property. -/
def Nested.FailsWith (P : Error → Prop) (run : Nested σ) : Prop :=
  ∀ (t : Template) (ctx : Context), t.IsCompiled → Render.FailsWith P (run t ctx)

/-- Partials are loaded as compiled templates, or with errors that have a property. -/
def LoadsWith (P : Error → Prop) (setting : Setting σ) : Prop :=
  ∀ name indent, Ensures P (fun found => ∀ t ∈ found, t.IsCompiled) (setting.load name indent)

namespace Ensures

/-- An error that comes up has the property. -/
theorem of_error {x : Render σ α} (hx : Ensures P Q x) {p q : Progress σ} {e : Error}
    (h : x p = .error e q) : P e := by
  have hp := hx p
  rwa [h] at hp

theorem pure {a : α} (h : Q a) : Ensures (σ := σ) P Q (Pure.pure a) :=
  fun _ => h

theorem throw {e : Error} (h : P e) : Ensures (σ := σ) P Q (MonadExcept.throw e) :=
  fun _ => h

/-- Parts of a rendering follow each other, the second one with what the first has ensured. -/
theorem bind {x : Render σ α} {f : α → Render σ β} (hx : Ensures P Q x)
    (hf : ∀ a, Q a → Ensures P R (f a)) : Ensures P R (x >>= f) := by
  intro p
  have hfirst := hx p
  change match EStateM.bind x f p with | .ok b _ => R b | .error e _ => P e
  unfold EStateM.bind
  cases hxp : x p with
  | ok a q =>
    rw [hxp] at hfirst
    exact hf a hfirst q
  | error e q =>
    rw [hxp] at hfirst
    exact hfirst

theorem report (e : Event) : FailsWith (σ := σ) P (report e) :=
  fun _ => trivial

theorem ask (host : Host σ) (call : Call) : Ensures P (fun _ => True) (ask host call) :=
  fun _ => trivial

theorem captured {x : Render σ Unit} (hx : FailsWith P x) :
    Ensures P (fun _ => True) (captured x) := by
  intro p
  have hpart := hx { p with sink := .empty }
  unfold Render.captured
  cases hxp : x { p with sink := .empty } with
  | ok a q => trivial
  | error e q =>
    rw [hxp] at hpart
    exact hpart

theorem mapError {f : Error → Error} {x : Render σ α} (hx : Ensures P Q x)
    (hf : ∀ e, P e → P (f e)) : Ensures P Q (mapError f x) := by
  intro p
  have hpart := hx p
  unfold Render.mapError
  cases hxp : x p with
  | ok a q =>
    rw [hxp] at hpart
    exact hpart
  | error e q =>
    rw [hxp] at hpart
    exact hf e hpart

theorem forM {items : List β} {f : β → Render σ Unit}
    (h : ∀ item ∈ items, FailsWith P (f item)) : FailsWith P (items.forM f) := by
  induction items with
  | nil => exact .pure trivial
  | cons item items ih =>
    exact .bind (h item List.mem_cons_self) fun _ _ =>
      ih fun other hother => h other (List.mem_cons_of_mem _ hother)

end Ensures

end Render

namespace Error.Invariant

open Render

variable {σ : Type} {P : Error → Prop} {setting : Setting σ} {nested : Option (Nested σ)}
variable {t : Template}

theorem emit (hP : Error.Invariant P) (piece : List Char) :
    FailsWith (σ := σ) P (emit piece) := by
  intro p
  unfold Render.emit
  cases p.sink.refusal? piece with
  | none => trivial
  | some reason => exact hP.device reason

theorem emitAll (hP : Error.Invariant P) (pieces : List (List Char)) :
    FailsWith (σ := σ) P (emitAll pieces) := by
  induction pieces with
  | nil => exact .pure trivial
  | cons piece pieces ih => exact .bind (hP.emit piece) fun _ _ => ih

/-- A source either compiles or fails with an error that has the property. -/
theorem ofExcept_compile (hP : Error.Invariant P) (pair : Delimiters) (source : String) :
    Ensures (σ := σ) P Template.IsCompiled (Render.ofExcept (Template.compile pair source)) := by
  cases h : Template.compile pair source with
  | ok t => exact .pure ⟨pair, source, h⟩
  | error e => exact .throw (hP.compile pair source e h)

/-! ## Running templates -/

/-- Either the limit is hit, or compiled templates can be run. -/
theorem enter (hP : Error.Invariant P) (hnested : ∀ run ∈ nested, Nested.FailsWith P run) :
    Ensures P (Nested.FailsWith P) (Render.enter setting nested) := by
  cases nested with
  | none => exact .throw (hP.limit setting.limit)
  | some run => exact .pure (hnested run rfl)

theorem expand (hP : Error.Invariant P) (hnested : ∀ run ∈ nested, Nested.FailsWith P run)
    (t : Template) (ctx : Context) (text : String) :
    FailsWith P (Render.expand setting nested t ctx text) := by
  unfold Render.expand
  split
  · exact .pure trivial
  · apply (hP.enter hnested).bind
    intro run hrun
    apply (Ensures.report _).bind
    intro _ _
    apply (hP.ofExcept_compile t.live text).bind
    intro expanded hexpanded
    exact hrun expanded ctx hexpanded

theorem includePartial (hP : Error.Invariant P) (hload : LoadsWith P setting)
    (hnested : ∀ run ∈ nested, Nested.FailsWith P run) (ctx : Context) (name indent : String) :
    FailsWith P (Render.includePartial setting nested ctx name indent) := by
  unfold Render.includePartial
  apply ((hload name indent).mapError (hP.blame name)).bind
  intro found hfound
  cases found with
  | none => exact .pure trivial
  | some inner =>
    apply (hP.enter hnested).bind
    intro run hrun
    exact (hrun inner ctx (hfound inner rfl)).mapError fun e he => hP.blameOwner name _ he

/-- A variable of a compiled template is written, or fails with an error that has the property. -/
theorem interpolate (hP : Error.Invariant P) (hnested : ∀ run ∈ nested, Nested.FailsWith P run)
    (ht : t.IsCompiled) (ctx : Context) {escaping : Escaping} {target : Reference}
    (hwithin : (Instr.interpolation escaping target).Within t.program) :
    FailsWith P (Render.interpolate setting nested t ctx escaping target) := by
  unfold Render.interpolate
  split
  · exact .pure trivial
  · apply (Ensures.ask setting.host _).bind
    intro text _
    apply (hP.expand hnested t ctx text).captured.bind
    intro output _
    exact hP.emitAll _
  · split
    · exact .pure trivial
    · split
      · exact .throw (hP.refuse t ht escaping target hwithin _)
      · exact hP.emitAll _

mutual

/-- An instruction of a compiled template fails with errors that have the property. -/
theorem runInstr (hP : Error.Invariant P) (hload : LoadsWith P setting)
    (hnested : ∀ run ∈ nested, Nested.FailsWith P run) (ht : t.IsCompiled) :
    ∀ (i : Instr) (ctx : Context), (∀ j : Instr, j.Within [i] → j.Within t.program) →
      FailsWith P (Render.runInstr setting nested t ctx i)
  | .text whole, _, _ => by
    rw [Render.runInstr]
    exact hP.emit whole.text
  | .interpolation escaping target, ctx, hwithin => by
    rw [Render.runInstr]
    exact hP.interpolate hnested ht ctx (hwithin _ (.here List.mem_cons_self))
  | .block .upright target raw body, ctx, hwithin => by
    have hbody : ∀ j : Instr, j.Within body → j.Within t.program := fun j hj =>
      hwithin j (.inside List.mem_cons_self hj)
    rw [Render.runInstr]
    split
    · exact .pure trivial
    · apply (Ensures.ask setting.host _).bind
      intro text _
      exact hP.expand hnested t ctx text
    · exact .forM fun item _ => runAll hP hload hnested ht body (ctx.push item) hbody
    · split
      · exact .pure trivial
      · exact runAll hP hload hnested ht body (ctx.push _) hbody
  | .block .inverted target raw body, ctx, hwithin => by
    rw [Render.runInstr]
    split
    · exact runAll hP hload hnested ht body ctx fun j hj =>
        hwithin j (.inside List.mem_cons_self hj)
    · exact .pure trivial
  | .inclusion name indent, ctx, _ => by
    rw [Render.runInstr]
    exact hP.includePartial hload hnested ctx name indent

/-- Instructions of a compiled template fail with errors that have the property. -/
theorem runAll (hP : Error.Invariant P) (hload : LoadsWith P setting)
    (hnested : ∀ run ∈ nested, Nested.FailsWith P run) (ht : t.IsCompiled) :
    ∀ (is : List Instr) (ctx : Context), (∀ j : Instr, j.Within is → j.Within t.program) →
      FailsWith P (Render.runAll setting nested t ctx is)
  | [], _, _ => by
    rw [Render.runAll]
    exact .pure trivial
  | i :: is, ctx, hwithin => by
    rw [Render.runAll]
    apply (runInstr hP hload hnested ht i ctx fun j hj => hwithin j (hj.mono (by simp))).bind
    intro _ _
    exact runAll hP hload hnested ht is ctx fun j hj =>
      hwithin j (hj.mono (List.subset_cons_self i is))

end

/-- To every depth, compiled templates fail with errors that have the property. -/
theorem runTemplate (hP : Error.Invariant P) (hload : LoadsWith P setting) (depth : Nat) :
    Nested.FailsWith P (Render.runTemplate setting depth) := by
  induction depth with
  | zero =>
    intro t ctx ht
    exact hP.runAll hload (by simp) ht t.program ctx fun _ hj => hj
  | succ depth ih =>
    intro t ctx ht
    have hnested : ∀ run ∈ some (Render.runTemplate setting depth), Nested.FailsWith P run := by
      rintro _ ⟨⟩
      exact ih
    exact hP.runAll hload hnested ht t.program ctx fun _ hj => hj

end Error.Invariant

/-! ## Answers -/

/-- The error of an answer. -/
def Answer.error? : Answer → Option Error
  | .failed e => some e
  | .written failure _ => failure
  | _ => none

/-- The error of the answer, if it has one, has a property. -/
def Answer.FailsWith (P : Error → Prop) (a : Answer) : Prop :=
  ∀ e ∈ a.error?, P e

variable {σ : Type} {P : Error → Prop}

theorem Rendered.error?_answer (r : Rendered σ) : r.answer.error? = r.failure := by
  unfold answer
  cases r.failure <;> rfl

/-- Data that cannot be converted have an error with the property. -/
theorem Error.Invariant.value (hP : Error.Invariant P) {view : View} {e : Error}
    (h : view.value = .error e) : P e := by
  cases view with
  | direct v => cases h
  | structured v =>
    rw [View.value] at h
    split at h
    · cases h
    · cases h
      exact hP.conversion _

namespace BareSession

variable (hP : Error.Invariant P) (host : Host σ) (b : BareSession σ)

include hP

/-- Partials that a bare session loads are compiled, or fail with the property. -/
theorem loadsWith_setting : Render.LoadsWith P (b.setting host) := by
  intro name indent
  change Render.Ensures P _ (Render.freshTemplate b.delimiters b.partials name indent)
  unfold Render.freshTemplate
  split
  · exact .pure nofun
  · apply (hP.ofExcept_compile b.delimiters _).bind
    intro t ht
    refine .pure ?_
    rintro _ ⟨⟩
    exact ht

theorem invariant_draw {t : Template} (ht : t.IsCompiled) (view : Value) (sink : Sink) :
    ∀ e ∈ (b.draw host t view sink).failure, P e := by
  intro e he
  have hrun := hP.runTemplate (b.loadsWith_setting hP host) b.limit t (Context.ofView view) ht
  unfold draw at he
  split at he
  · cases he
  · rename_i hrender
    cases he
    exact hrun.of_error hrender

theorem invariant_drawSource (source : String) (view : Value) (sink : Sink) :
    ∀ e ∈ (b.drawSource host source view sink).failure, P e := by
  unfold drawSource
  split
  · rename_i hcompile
    rintro e ⟨⟩
    exact hP.compile b.delimiters source _ hcompile
  · rename_i hcompile
    exact b.invariant_draw hP host ⟨_, _, hcompile⟩ view sink

theorem invariant_render (source : String) (view : Value) :
    ∀ e ∈ (b.render host source view).failure, P e := by
  unfold render
  split
  · exact nofun
  · exact b.invariant_drawSource hP host source view .empty

omit hP in
/-- What is answered about a source that is kept has the property if it has it for all sources. -/
theorem invariant_withSource {name : String} {f : String → BareReply × BareSession σ}
    (hf : ∀ source, ∀ a ∈ (f source).1.answer, a.FailsWith P) :
    ∀ a ∈ (b.withSource name f).1.answer, a.FailsWith P := by
  unfold withSource
  split
  · rintro a ⟨⟩ e ⟨⟩
  · exact hf _

/-- Every answer that fails does so with an error that has the property. -/
theorem invariant_answer (r : Request) :
    ∀ a ∈ (b.answer host r).1.answer, a.FailsWith P := by
  have hanswer : ∀ rendered : Rendered σ, (∀ e ∈ rendered.failure, P e) →
      rendered.answer.FailsWith P := by
    intro rendered h e he
    rw [rendered.error?_answer] at he
    exact h e he
  cases r with
  | addPartial | setPartials | setLimit =>
    rintro a ⟨⟩ e ⟨⟩
  | render source view =>
    rw [answer]
    split
    · rename_i hvalue
      rintro a ⟨⟩ e ⟨⟩
      exact hP.value hvalue
    · rintro a ⟨⟩
      exact hanswer _ (b.invariant_render hP host source _)
  | renderWith source view partials =>
    rintro a ⟨⟩
    exact hanswer _ ((b.replacing partials).invariant_render hP host source view)
  | compile name source =>
    rw [answer]
    split
    · rename_i hcompile
      rintro a ⟨⟩ e ⟨⟩
      exact hP.compile b.delimiters source _ hcompile
    · rintro a ⟨⟩ e ⟨⟩
  | sourceOf name =>
    apply invariant_withSource
    rintro source a ⟨⟩ e ⟨⟩
  | renderCompiled name view =>
    apply invariant_withSource
    intro source
    split
    · rename_i hvalue
      rintro a ⟨⟩ e ⟨⟩
      exact hP.value hvalue
    · rintro a ⟨⟩
      exact hanswer _ (b.invariant_drawSource hP host source _ .empty)
  | writeCompiled name view device =>
    apply invariant_withSource
    intro source
    split
    · rename_i hvalue
      rintro a ⟨⟩ e ⟨⟩
      exact hP.value hvalue
    · rintro a ⟨⟩
      exact b.invariant_drawSource hP host source _ (.device device)
  | showEngine | showTemplate =>
    rintro a ⟨⟩

omit hP in
/-- A bare session does not say only how an engine is shown. -/
theorem exists_answer (r : Request) :
    (∃ a, (b.answer host r).1.answer = some a) ∨ r = .showEngine ∨
      ∃ name, r = .showTemplate name := by
  have hwithSource : ∀ (name : String) (f : String → BareReply × BareSession σ),
      (∀ source, ∃ a, (f source).1.answer = some a) →
        ∃ a, (b.withSource name f).1.answer = some a := by
    intro name f hf
    unfold withSource
    split
    · exact ⟨_, rfl⟩
    · exact hf _
  cases r with
  | addPartial | setPartials | setLimit | renderWith => exact .inl ⟨_, rfl⟩
  | render source view =>
    left
    rw [answer]
    split <;> exact ⟨_, rfl⟩
  | compile name source =>
    left
    rw [answer]
    split <;> exact ⟨_, rfl⟩
  | sourceOf name => exact .inl (hwithSource _ _ fun source => ⟨_, rfl⟩)
  | renderCompiled name view | writeCompiled name view device =>
    left
    apply hwithSource
    intro source
    split <;> exact ⟨_, rfl⟩
  | showEngine => exact .inr (.inl rfl)
  | showTemplate name => exact .inr (.inr ⟨name, rfl⟩)

end BareSession

namespace Session

variable {s : Session σ} {b : BareSession σ}

/-- A session answers like a bare one, or is shown. -/
theorem Represents.invariant_answer (hP : Error.Invariant P) (h : s.Represents b) (host : Host σ)
    (r : Request) : (s.answer host r).1.answer.FailsWith P := by
  rcases b.exists_answer host r with ⟨a, ha⟩ | rfl | ⟨name, rfl⟩
  · rw [(h.answer host r).1.answer a ha]
    exact b.invariant_answer hP host r a ha
  · rintro e ⟨⟩
  · intro e he
    rw [Session.answer, withTemplate] at he
    split at he <;> cases he

/-- All answers of a session, one after the other, fail with errors that have the property, if they
fail. -/
theorem Represents.invariant_answerAll (hP : Error.Invariant P) (h : s.Represents b)
    (host : Host σ) (rs : List Request) :
    ∀ reply ∈ (s.answerAll host rs).1, reply.answer.FailsWith P := by
  induction rs generalizing s b with
  | nil =>
    intro reply hreply
    cases hreply
  | cons r rs ih =>
    intro reply hreply
    rcases List.mem_cons.1 hreply with rfl | hreply
    · exact h.invariant_answer hP host r
    · exact ih (h.answer host r).2 reply hreply

end Session

end Mustache
