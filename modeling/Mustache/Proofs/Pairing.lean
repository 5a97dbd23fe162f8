import Mustache.Proofs.FlawPlaces
import Mustache.Proofs.Walking

/-!
# Spans and the sources that they are applied to

While a template is rendered, others are read inside it: partials, which may have been
compiled long before, and the texts of lambdas.  Each span is applied to the source of
the template whose program it belongs to, and an error is shown with the source in which
it was found.  So at every moment of every rendering of a session, all that can still be
read is cut out of the right source, and every error that is answered can be shown.

Main results:

- Theorem `Engine.setting_loadsSoundly`: partials are loaded soundly, kept or not.
- Theorem `Stepwise.Moment.Sound.turn`: a turn keeps a rendering sound.
- Theorem `Stepwise.Walk.sound`: a rendering of a sound template is sound at every moment.
- Theorem `Session.slices_defined`: all slices of a session are defined.
-/

namespace Mustache

open Text

variable {σ : Type}

/-! ## Errors on their way outwards -/

namespace Error

variable {e : Error}

/-- Naming a partial does not move an error. -/
theorem Sound.blame (h : e.Sound) (name : String) : (e.blame name).Sound := by
  cases e with
  | flawed finding => exact h
  | _ => trivial

/-- An error that passes through the templates around it is not moved. -/
theorem Sound.named (h : e.Sound) (frames : List Stepwise.Frame) :
    (e.mapFinding (Stepwise.named frames)).Sound := by
  cases e with
  | flawed finding => exact h
  | _ => trivial

end Error

/-! ## Loading partials -/

/-- All kept partials are sound. -/
def CompiledPartials.Sound (compiled : CompiledPartials) : Prop :=
  ∀ name indent t, compiled.find? name indent = some t → t.Sound

namespace CompiledPartials

variable {compiled : CompiledPartials}

/-- A sound partial may be kept. -/
theorem Sound.add (h : compiled.Sound) {t : Template} (ht : t.Sound) (name indent : String) :
    (compiled.add name indent t).Sound := by
  intro other otherIndent u hu
  rw [find?_add] at hu
  split at hu
  · obtain rfl := Option.some.inj hu
    exact ht
  · exact h other otherIndent u hu

/-- Partials that are kept faithfully are sound. -/
theorem Faithful.sound {delimiters : Delimiters} {partials : Dictionary String}
    (h : compiled.Faithful delimiters partials) : compiled.Sound := by
  intro name indent t ht
  obtain ⟨source, -, hcompile⟩ := h name indent t ht
  exact Template.sound_of_compile hcompile

end CompiledPartials

/-- A part of a rendering comes to a result of this kind and leaves sound partials kept, or it comes
to a sound error. -/
def Render.ComesTo {α : Type} (P : α → Prop) : EStateM.Result Error (Progress σ) α → Prop
  | .ok a q => P a ∧ q.compiled.Sound
  | .error e _ => e.Sound

/-- Loading a partial finds sound templates, and leaves sound ones kept. -/
def Setting.LoadsSoundly (s : Setting σ) : Prop :=
  ∀ name indent p, p.compiled.Sound →
    Render.ComesTo (fun found => ∀ t ∈ found, t.Sound) (s.load name indent p)

/-- An engine loads partials soundly, whether it has kept them or not. -/
theorem Engine.setting_loadsSoundly (e : Engine) (host : Host σ) :
    (e.setting host).LoadsSoundly := by
  intro name indent p hp
  show Render.ComesTo _ (Render.partialTemplate e.delimiters e.partials name indent p)
  rw [Render.partialTemplate_apply]
  cases hfind : p.compiled.find? name indent with
  | some t =>
    refine ⟨?_, hp⟩
    rintro u ⟨⟩
    exact hp name indent t hfind
  | none =>
    cases Dictionary.get? e.partials name with
    | none => exact ⟨by simp, hp⟩
    | some source =>
      dsimp only
      rw [Render.compilePartial_apply]
      cases hcompile : Template.compile e.delimiters (Template.indented indent source) with
      | error failure => exact Error.sound_of_compile hcompile
      | ok t =>
        have ht := Template.sound_of_compile hcompile
        refine ⟨?_, hp.add ht name indent⟩
        rintro u ⟨⟩
        exact ht

/-! ## Effects -/

/-- If the effect refuses a value, it is with a sound finding. -/
def Effect.Sound : Effect → Prop
  | .refuse finding => finding.Sound
  | _ => True

/-- If the insertion is a partial, it is sound. -/
def Insertion.Sound : Insertion → Prop
  | .inclusion _ t => t.Sound
  | .expansion _ _ => True

namespace Instr

variable {source : List Char} {t : Template} {ctx : Context} {i : Instr}

/-- What an instruction reads includes what the instructions of its body read. -/
theorem cutFrom_of_mem_body (h : i.CutFrom source) : ∀ j ∈ i.body, j.CutFrom source := by
  cases i with
  | block polarity target raw body => exact cutFromAll_iff.1 h.2.2
  | _ => simp [body]

/-- A value is refused with the place of its name. -/
theorem sound_ofValue {escaping : Escaping} {target : Reference} {v : Value}
    (h : target.CutFrom t.source.toList) : (Effect.ofValue t escaping target v).Sound := by
  unfold Effect.ofValue
  split
  · trivial
  · split
    · exact Finding.sound_of_standsIn (Fragment.cutFrom_iff.1 h.1) rfl
    · trivial

/-- An instruction that reads from the right source has a sound effect. -/
theorem sound_of_plan_effect (h : i.CutFrom t.source.toList) {effect : Effect}
    (hplan : i.plan t ctx = .effect effect) : effect.Sound := by
  cases i with
  | text | inclusion =>
    cases hplan
    trivial
  | interpolation escaping target =>
    rw [plan] at hplan
    split at hplan
    · cases hplan
      trivial
    · cases hplan
      trivial
    · cases hplan
      exact sound_ofValue h
  | block polarity target raw body =>
    cases polarity with
    | upright =>
      rw [plan] at hplan
      split at hplan
      · cases hplan
      · cases hplan
        trivial
      · cases hplan
      · split at hplan <;> cases hplan
    | inverted =>
      rw [plan] at hplan
      split at hplan <;> cases hplan

end Instr

namespace Render

/-- Writing leaves the kept partials alone. -/
theorem compiled_of_emitAll {pieces : List (List Char)} {p q : Progress σ} {u : Unit}
    (h : emitAll pieces p = .ok u q) : q.compiled = p.compiled := by
  induction pieces generalizing p with
  | nil =>
    cases h
    rfl
  | cons piece pieces ih =>
    change EStateM.bind (emit piece) _ p = _ at h
    unfold EStateM.bind emit at h
    cases hrefusal : p.sink.refusal? piece with
    | none =>
      rw [hrefusal] at h
      exact (ih h).trans rfl
    | some reason =>
      rw [hrefusal] at h
      cases h

/-- A sound effect leaves sound templates, or fails with a sound error. -/
theorem sound_perform {s : Setting σ} (hs : s.LoadsSoundly) {effect : Effect} (h : effect.Sound)
    {p : Progress σ} (hp : p.compiled.Sound) :
    ComesTo (fun found => ∀ insertion ∈ found, insertion.Sound) (perform s effect p) := by
  cases effect with
  | write pieces =>
    show ComesTo _ (EStateM.bind (emitAll pieces) _ p)
    unfold EStateM.bind
    cases hwrite : emitAll pieces p with
    | ok u q =>
      refine ⟨by rintro insertion ⟨⟩, ?_⟩
      rw [← compiled_of_emitAll hwrite] at hp
      exact hp
    | error e q =>
      obtain ⟨reason, rfl⟩ := exists_device_of_emitAll hwrite
      trivial
  | refuse finding => exact h
  | ask call capture =>
    refine ⟨?_, hp⟩
    intro insertion hinsertion
    unfold Insertion.ofAnswer? at hinsertion
    split at hinsertion
    · cases hinsertion
    · cases hinsertion
      trivial
  | load name indent =>
    have hload := hs name indent p hp
    show ComesTo _ (EStateM.bind (mapError (Error.blame name) (s.load name indent)) _ p)
    unfold EStateM.bind mapError
    cases hfound : s.load name indent p with
    | error e q =>
      rw [hfound] at hload
      exact hload.blame name
    | ok found q =>
      rw [hfound] at hload
      obtain ⟨htemplates, hkept⟩ := hload
      refine ⟨?_, hkept⟩
      intro insertion hinsertion
      obtain ⟨t, ht, rfl⟩ := Option.map_eq_some_iff.1 hinsertion
      exact htemplates t ht

end Render

/-! ## Moments -/

namespace Stepwise

/-- All that is left of the template is cut out of its source. -/
def Page.Sound (page : Page) : Prop :=
  ∀ entry ∈ page.agenda, entry.2.CutFrom page.template.source.toList

/-- All that is left of the template that is being read, and of those around it, is cut out of their
sources, and the kept partials are sound. -/
structure Moment.Sound (m : Moment σ) : Prop where
  page : m.page.Sound
  frames : ∀ f ∈ m.frames, f.outer.Sound
  compiled : m.progress.compiled.Sound

/-- What comes of a moment is sound: the next moment and a template that is to be opened, or the
error. -/
def Move.Sound : Move σ → Prop
  | .ends _ => True
  | .fails b => b.error.Sound
  | .goes m => m.Sound
  | .opens insertion _ m => insertion.Sound ∧ m.Sound

/-- The next moment is sound, or the error is. -/
def Turn.Sound : Turn σ → Prop
  | .ends _ => True
  | .fails b => b.error.Sound
  | .goes m => m.Sound

/-- A sound template of which nothing is read yet. -/
theorem Page.sound_first {t : Template} (ht : t.Sound) (ctx : Context) :
    (Page.first t ctx).Sound := by
  intro entry hentry
  exact Instr.cutFromAll_iff.1 ht _ (Agenda.mem_of_mem_ofBody hentry)

/-- The beginning of a rendering of a sound template is sound. -/
theorem Moment.sound_start {t : Template} (ht : t.Sound) (view : Value) {p : Progress σ}
    (hp : p.compiled.Sound) : (Moment.start t view p).Sound where
  page := Page.sound_first ht _
  frames := by
    intro f hf
    cases hf
  compiled := hp

variable {s : Setting σ} {m m' : Moment σ}

/-- Going back to a template that waits. -/
theorem Frame.sound_resume {f : Frame} {frames : List Frame} {p : Progress σ}
    (hf : f.outer.Sound) (hframes : ∀ f ∈ frames, f.outer.Sound) (hp : p.compiled.Sound) :
    (f.resume frames p).Sound := by
  unfold resume
  split
  · exact ⟨hf, hframes, hp⟩
  · exact ⟨hf, hframes, hp⟩
  · split
    · rename_i hwrite
      have hkept := Render.compiled_of_emitAll hwrite
      exact ⟨hf, hframes, hkept ▸ hp⟩
    · rename_i hwrite
      obtain ⟨reason, rfl⟩ := Render.exists_device_of_emitAll hwrite
      trivial

namespace Moment.Sound

/-- Carrying out the next instruction. -/
theorem follow (hs : s.LoadsSoundly) (h : m.Sound) {ctx : Context} {i : Instr} {rest : Agenda}
    (hagenda : m.page.agenda = (ctx, i) :: rest) :
    (m.follow s ctx rest (i.plan m.page.template ctx)).Sound := by
  have hpage := h.page
  unfold Page.Sound at hpage
  rw [hagenda] at hpage
  have hi := hpage (ctx, i) List.mem_cons_self
  have hrest : ∀ entry ∈ rest, entry.2.CutFrom m.page.template.source.toList :=
    fun entry hentry => hpage entry (List.mem_cons_of_mem _ hentry)
  cases hplan : i.plan m.page.template ctx with
  | body agenda =>
    refine ⟨?_, h.frames, h.compiled⟩
    intro entry hentry
    rcases List.mem_append.1 hentry with hentry | hentry
    · exact Instr.cutFrom_of_mem_body hi _ (Instr.mem_body_of_plan hplan entry hentry)
    · exact hrest entry hentry
  | effect effect =>
    have heffect := Render.sound_perform hs (Instr.sound_of_plan_effect hi hplan) h.compiled
    unfold Moment.follow
    dsimp only
    cases hperform : Render.perform s effect m.progress with
    | error e p =>
      rw [hperform] at heffect
      exact heffect
    | ok found p =>
      rw [hperform] at heffect
      obtain ⟨hfound, hkept⟩ := heffect
      have hnext : Moment.Sound ⟨⟨m.page.template, rest⟩, m.frames, p⟩ :=
        ⟨hrest, h.frames, hkept⟩
      cases found with
      | none => exact hnext
      | some insertion => exact ⟨hfound insertion rfl, hnext⟩

/-- What comes of a sound moment before any bound is looked at is sound. -/
theorem move (hs : s.LoadsSoundly) (h : m.Sound) : (m.move s).Sound := by
  unfold Moment.move
  split
  · trivial
  · rename_i f frames _ hframes
    have hall := h.frames
    rw [hframes] at hall
    exact Frame.sound_resume (hall f List.mem_cons_self)
      (fun g hg => hall g (List.mem_cons_of_mem _ hg)) h.compiled
  · rename_i hagenda
    exact h.follow hs hagenda

/-- Going on inside a template: a partial has been compiled before, the text of a lambda is compiled
now. -/
theorem enter (h : m.Sound) {insertion : Insertion} (hinsertion : insertion.Sound)
    (ctx : Context) : (m.enter ctx insertion).Sound := by
  have hframes : ∀ entry : Entry, ∀ f ∈ ⟨entry, m.page⟩ :: m.frames, f.outer.Sound := by
    intro entry f hf
    rcases List.mem_cons.1 hf with rfl | hf
    · exact h.page
    · exact h.frames f hf
  cases insertion with
  | inclusion name inner => exact ⟨Page.sound_first hinsertion ctx, hframes _, h.compiled⟩
  | expansion capture text =>
    unfold Moment.enter
    dsimp only
    cases hcompile : Template.compile m.page.template.live text with
    | error e => exact Error.sound_of_compile hcompile
    | ok inner =>
      exact ⟨Page.sound_first (Template.sound_of_compile hcompile) ctx, hframes _, h.compiled⟩

/-- A turn keeps a rendering sound. -/
theorem turn (hs : s.LoadsSoundly) (h : m.Sound) (bound : Option Nat) :
    (m.turn s bound).Sound := by
  have hmove := h.move hs
  unfold Moment.turn
  cases hnext : m.move s with
  | ends p => trivial
  | fails b =>
    rw [hnext] at hmove
    exact hmove
  | goes m' =>
    rw [hnext] at hmove
    exact hmove
  | opens insertion ctx m' =>
    rw [hnext] at hmove
    dsimp only
    split
    · trivial
    · exact hmove.2.enter hmove.1 ctx

end Moment.Sound

/-- A rendering that is sound at one moment is sound at all later ones. -/
theorem Walk.sound (hs : s.LoadsSoundly) {bound : Option Nat} (h : Walk s bound m m')
    (hm : m.Sound) : m'.Sound := by
  induction h with
  | refl => exact hm
  | tail _ hturn ih =>
    have hnext := ih.turn hs bound
    rw [hturn] at hnext
    exact hnext

/-- A sound template fails with sound errors only. -/
theorem sound_of_render_error (hs : s.LoadsSoundly) {t : Template} (ht : t.Sound) {view : Value}
    {p q : Progress σ} (hp : p.compiled.Sound) {e : Error} (h : t.render s view p = .error e q) :
    e.Sound := by
  obtain ⟨last, b, hwalk, hturn, hb⟩ := exists_breakdown_of_render h
  have hlast := (hwalk.sound hs (Moment.sound_start ht view hp)).turn hs (some s.limit)
  rw [hturn] at hlast
  obtain ⟨q', hsettle⟩ := exists_settle b.frames b.error b.progress
  rw [Breakdown.outcome, hsettle] at hb
  cases hb
  exact hlast.named b.frames

end Stepwise

/-! ## Renderings -/

/-- All that is cut out of sources while a template is rendered can be cut out. -/
structure Engine.CutsDefined (host : Host σ) (t : Template) (view : Value) (sink : Sink)
    (a : Engine.Activity σ) : Prop where
  /-- The rendering is a walk to a last moment. -/
  walks : ∃ last, Stepwise.Walk (a.engine.setting host) (some a.engine.limit)
      (.start t view (a.begin sink)) last ∧
    (last.turn (a.engine.setting host) (some a.engine.limit)).outcome? =
      some (t.render (a.engine.setting host) view (a.begin sink))
  /-- At every moment, all that is left of a template is cut out of the source of this template. -/
  moments : ∀ m, Stepwise.Walk (a.engine.setting host) (some a.engine.limit)
    (.start t view (a.begin sink)) m → m.Sound
  /-- An error can be shown in the source in which it was found. -/
  failure : ∀ e taken b, Engine.draw host t view sink a = .ok (some e, taken) b →
    e.Sound ∧ e.pretty? = some e.pretty

/-- A sound template is rendered by cuts that are defined. -/
theorem Engine.cutsDefined (host : Host σ) {t : Template} (ht : t.Sound) (view : Value)
    (sink : Sink) {a : Engine.Activity σ} (ha : a.engine.compiled.Sound) :
    CutsDefined host t view sink a where
  walks := Stepwise.exists_walk_render (a.engine.setting host) t view (a.begin sink)
  moments _ hwalk := hwalk.sound (a.engine.setting_loadsSoundly host)
    (Stepwise.Moment.sound_start ht view ha)
  failure e taken b hdraw := by
    unfold draw at hdraw
    split at hdraw
    · cases hdraw
    · rename_i hrender
      cases hdraw
      have hsound :=
        Stepwise.sound_of_render_error (a.engine.setting_loadsSoundly host) ht ha hrender
      exact ⟨hsound, Error.pretty?_eq hsound⟩

/-! ## Answers -/

/-- If the answer has an error, it is sound. -/
def Answer.Sound (a : Answer) : Prop :=
  ∀ e ∈ a.error?, e.Sound

/-! ## Sessions -/

namespace Session

/-- A template that the session can render: one that is kept under a name, one that the engine keeps
under its source, or one that the engine compiles. -/
inductive Offers (s : Session σ) (t : Template) : Prop
  | named (name : String) (h : Dictionary.get? s.templates name = some t)
  | kept (source : String) (h : Dictionary.get? s.engine.templates source = some t)
  | compiled (source : String) (h : s.engine.compile source = .ok t)

variable {s : Session σ} {b : BareSession σ}

/-- All that a session can render is sound. -/
theorem Represents.sound_of_offers (h : s.Represents b) {t : Template} (ht : s.Offers t) :
    t.Sound := by
  cases ht with
  | named name hname =>
    obtain ⟨source, hcompile⟩ := h.exists_compile_eq hname
    exact Template.sound_of_compile hcompile
  | kept source hkept =>
    exact Template.sound_of_compile (h.engine.faithful.templates source t hkept)
  | compiled source hcompile => exact Template.sound_of_compile hcompile

/-- All answers of a session are sound, one after the other. -/
theorem Represents.sound_answerAll (h : s.Represents b) (host : Host σ) (rs : List Request) :
    ∀ reply ∈ (s.answerAll host rs).1, reply.answer.Sound :=
  fun reply hreply e he =>
    (h.invariant_answerAll Error.invariant_hasPlace host rs reply hreply e he).sound

/-- All slices of a session are defined.  Whatever is compiled, from whatever pair of markers, the
scanner stays within the source, and every span of a token, of a node and of an instruction cuts its
own text out of the source.  After any requests, every rendering of the session applies spans to the
sources from which they come, at each of its moments, and every error can be shown in the source in
which it was found. -/
theorem slices_defined (host : Host σ) (delimiters : Delimiters) (limit : Nat) (init : σ)
    (history : List Request) :
    (∀ pair source, Template.CutsDefined pair source) ∧
    (∀ text, Html.escapeFrom? text 0 0 text = some (Html.escapePieces text)) ∧
    let s := (Session.start delimiters limit init).answerAll host history
    (∀ reply ∈ s.1, ∀ e ∈ reply.answer.error?, e.Sound ∧ e.pretty? = some e.pretty) ∧
    ∀ t, s.2.Offers t → ∀ view sink,
      Engine.CutsDefined host t view sink ⟨s.2.engine, s.2.host, [], []⟩ := by
  refine ⟨Template.cutsDefined, Html.escapeFrom?_eq, ?_⟩
  intro s
  have hstart := Session.represents_start delimiters limit init
  obtain ⟨-, hlast⟩ := hstart.answerAll host history
  constructor
  · intro reply hreply e he
    have hsound := hstart.sound_answerAll host history reply hreply e he
    exact ⟨hsound, Error.pretty?_eq hsound⟩
  · intro t ht view sink
    exact Engine.cutsDefined host (hlast.sound_of_offers ht) view sink
      hlast.engine.faithful.compiled.sound

/-- A source with markers and a name that have more bytes than characters, which is a partial and is
compiled as a template. -/
theorem slices_defined_multibyte :
    let source := "\x7b\x7b=« »=\x7d\x7d«é»"
    let t : Template := ⟨source, ⟨⟨['«'], by decide⟩, ⟨['»'], by decide⟩⟩,
      [.interpolation .escaped (Reference.ofName ⟨13, ['é']⟩)]⟩
    let host : Host Unit := ⟨fun _ _ u => ("", u)⟩
    let s := (start .standard 64 ()).answerAll host [.addPartial "p" source]
    s.2.Offers t ∧ cut? 13 15 source.toList = some ['é'] ∧ cut? 13 14 source.toList = none ∧
      Engine.CutsDefined host t .null .empty ⟨s.2.engine, s.2.host, [], []⟩ := by
  intro source t host s
  let tokens : List Token :=
    [⟨.setDelimiters, ⟨0, ['{', '{', '=', '«', ' ', '»', '=', '}', '}']⟩, true⟩,
      ⟨.interpolation .escaped ⟨13, ['é']⟩, ⟨11, ['«', 'é', '»']⟩, false⟩]
  have hstream : Token.ofSource .standard source.toList = .ok ⟨tokens, t.live⟩ := by decide +kernel
  have hsettle : Token.settle tokens = tokens := by decide +kernel
  have hnested : Node.ofTokens (Token.settle tokens) =
      .ok [.interpolation .escaped ⟨13, ['é']⟩ ⟨11, ['«', 'é', '»']⟩] := by
    rw [hsettle]
    rfl
  have hcompile : s.2.engine.compile source = .ok t :=
    Template.compile_of_ofTokens hstream hnested
  have ht : s.2.Offers t := .compiled source hcompile
  obtain ⟨-, -, -, hdraws⟩ := slices_defined host .standard 64 () [.addPartial "p" source]
  exact ⟨ht, by decide +kernel, by decide +kernel, hdraws t ht .null .empty⟩

end Session

end Mustache
