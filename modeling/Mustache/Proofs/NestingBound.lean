import Mustache.Proofs.Refinement
import Mustache.Proofs.Walking

/-!
# The bound on nested templates

Every rendering comes to an end, and no template is read deeper than the limit
allows.  A rendering is stopped at the limit exactly if a rendering without any
limit would come to a moment, as deep as the limit, at which a template is to be
opened: an inclusion of a partial whose source compiles, or the text of a lambda
that is not empty.

Main results:

- Theorem `Render.congruence_neverStops`: effects are not stopped at the limit.
- Theorem `Stepwise.Moment.opens_iff_nests`: which instructions open a template.
- Theorem `Stepwise.render_stops_iff`: when a rendering is stopped.
- Theorem `Session.nesting_bounded`: the renderings of a session are bounded.
-/

namespace Mustache

variable {σ α β : Type}

/-! ## Parts that are not stopped -/

/-- A flaw is no matter of the limit. -/
theorem Fault.kind_ne_maxIncludeDepth (f : Fault) : f.kind ≠ .maxIncludeDepth := by
  cases f <;> simp [kind]

namespace Render

/-- A part of a rendering does not fail because of the limit. -/
def NeverStops (x : Render σ α) : Prop :=
  ∀ p e q, x p = .error e q → e.kind ≠ .maxIncludeDepth

namespace NeverStops

theorem bind {x : Render σ α} {f : α → Render σ β} (hx : NeverStops x)
    (hf : ∀ a, NeverStops (f a)) : NeverStops (x >>= f) := by
  intro p e q h
  change EStateM.bind x f p = _ at h
  unfold EStateM.bind at h
  cases hxp : x p with
  | ok a p' =>
    rw [hxp] at h
    exact hf a p' e q h
  | error e' p' =>
    rw [hxp] at h
    cases h
    exact hx p e q hxp

theorem emit (piece : List Char) : NeverStops (σ := σ) (emit piece) := by
  intro p e q h
  unfold Render.emit at h
  split at h
  · cases h
  · cases h
    simp [Error.kind]

theorem captured {x : Render σ Unit} (hx : NeverStops x) : NeverStops (captured x) := by
  intro p e q h
  unfold Render.captured at h
  split at h
  · cases h
  · rename_i hxp
    cases h
    exact hx _ _ _ hxp

theorem mapFinding (g : Finding → Finding) {x : Render σ α} (hx : NeverStops x) :
    NeverStops (mapError (Error.mapFinding g) x) := by
  intro p e q h
  unfold mapError at h
  split at h
  · cases h
  · rename_i e' q' hxp
    cases h
    cases e' with
    | flawed finding => exact Fault.kind_ne_maxIncludeDepth _
    | _ => exact hx _ _ _ hxp

/-- Compiling a partial each time is not stopped. -/
theorem freshTemplate (delimiters : Delimiters) (partials : Dictionary String)
    (name indent : String) :
    NeverStops (σ := σ) (freshTemplate delimiters partials name indent) := by
  intro p e q h
  rw [freshTemplate_apply] at h
  split at h
  · cases h
  · split at h
    · cases h
    · rename_i hcompile
      cases h
      obtain ⟨flaw, rfl⟩ := Template.exists_finding_of_compile_error hcompile
      exact Fault.kind_ne_maxIncludeDepth _

end NeverStops

/-- Not being stopped is kept by all that does not enter a template. -/
theorem congruence_neverStops (w : World σ) :
    Congruence (worldSetting w) (worldSetting w) fun _ x _ => NeverStops x where
  pure a := by
    intro p e q h
    cases h
  flawed finding := by
    intro p e q h
    cases h
    exact Fault.kind_ne_maxIncludeDepth _
  bind := .bind
  emit := .emit
  report event := by
    intro p e q h
    cases h
  ask call := by
    intro p e q h
    cases h
  captured := .captured
  mapFinding g _ _ := .mapFinding g
  load := .freshTemplate w.delimiters w.partials

end Render

/-! ## Effects that leave a template -/

/-- An effect that leaves a template to be rendered: it loads a partial that has a source, and the
source compiles with its indent; or it asks a lambda, and the answer is not empty. -/
def Effect.Nests (w : World σ) (host : σ) : Effect → Prop
  | .load name indent => ∃ source t, Dictionary.get? w.partials name = some source ∧
      Template.compile w.delimiters (Template.indented indent source) = .ok t
  | .ask call _ => (w.host.answer call.lambda call.argument host).1 ≠ ""
  | .write _ | .refuse _ => False

namespace Render

/-- A lambda is asked for the text that is to be rendered. -/
theorem perform_ask_apply (w : World σ) (call : Call) (capture : Option Escaping)
    (p : Progress σ) :
    perform (worldSetting w) (.ask call capture) p =
      let answer := w.host.answer call.lambda call.argument p.host
      .ok (Insertion.ofAnswer? capture answer.1)
        { p with calls := p.calls ++ [call], host := answer.2 } :=
  rfl

/-- A partial is loaded by compiling its source, and named if it does not compile. -/
theorem perform_load_apply (w : World σ) (name indent : String) (p : Progress σ) :
    perform (worldSetting w) (.load name indent) p =
      match Dictionary.get? w.partials name with
      | none => .ok none p
      | some stored =>
        match Template.compile w.delimiters (Template.indented indent stored) with
        | .ok t => .ok (some (.inclusion name t)) p
        | .error e => .error (e.blame name) p := by
  show EStateM.bind (mapError _ (freshTemplate w.delimiters w.partials name indent)) _ p = _
  unfold EStateM.bind mapError
  rw [freshTemplate_apply]
  cases Dictionary.get? w.partials name with
  | none => rfl
  | some stored =>
    dsimp only
    cases Template.compile w.delimiters (Template.indented indent stored) <;> rfl

/-- These are the effects after which a template is to be rendered. -/
theorem perform_eq_some_iff (w : World σ) (effect : Effect) (p : Progress σ) :
    (∃ insertion q, perform (worldSetting w) effect p = .ok (some insertion) q) ↔
      effect.Nests w p.host := by
  cases effect with
  | write pieces =>
    refine iff_of_false ?_ id
    rintro ⟨insertion, q, h⟩
    change EStateM.bind (emitAll pieces) _ p = _ at h
    unfold EStateM.bind at h
    split at h
    · cases h
    · cases h
  | refuse finding =>
    refine iff_of_false ?_ id
    rintro ⟨insertion, q, h⟩
    cases h
  | ask call capture =>
    rw [perform_ask_apply]
    unfold Insertion.ofAnswer?
    simp [Effect.Nests]
  | load name indent =>
    rw [perform_load_apply]
    cases hsource : Dictionary.get? w.partials name with
    | none => simp [Effect.Nests, hsource]
    | some source =>
      dsimp only
      cases hcompile : Template.compile w.delimiters (Template.indented indent source) with
      | ok t => simp [Effect.Nests, hsource, hcompile]
      | error e => simp [Effect.Nests, hsource, hcompile]

end Render

namespace Stepwise

/-! ## Breakdowns -/

variable {w : World σ} {m : Moment σ}

/-- Before the limit is looked at, nothing is stopped. -/
theorem Moment.kind_of_move_fails {b : Breakdown σ}
    (h : m.move (Render.worldSetting w) = .fails b) : b.error.kind ≠ .maxIncludeDepth := by
  rcases move_fails_cases h with ⟨reason, hdevice⟩ | ⟨ctx, i, effect, -, heffect, -, -⟩
  · simp [hdevice, Error.kind]
  · exact (Render.congruence_neverStops w).perform effect _ _ _ heffect

/-- A turn is stopped only where a template is to be opened and the limit is reached. -/
theorem Moment.opens_of_turn_fails {limit : Nat} {b : Breakdown σ}
    (h : m.turn (Render.worldSetting w) (some limit) = .fails b)
    (hb : b.error.kind = .maxIncludeDepth) :
    m.Opens (Render.worldSetting w) ∧ limit ≤ m.nesting := by
  rcases turn_fails_cases h with hmove | ⟨insertion, ctx, k, hmove, ⟨other, hreached, -⟩ | henter⟩
  · exact absurd hb (kind_of_move_fails hmove)
  · obtain ⟨hsame, hle⟩ := reached?_eq_some_iff.1 hreached
    cases hsame
    exact ⟨⟨insertion, ctx, k, hmove⟩, hle⟩
  · obtain ⟨hcompile, -⟩ := exists_of_enter_fails henter
    obtain ⟨flaw, hflaw⟩ := Template.exists_finding_of_compile_error hcompile
    rw [hflaw] at hb
    exact absurd hb (Fault.kind_ne_maxIncludeDepth _)

/-! ## Instructions that open a template -/

/-- The next instruction of a moment leaves a template to be rendered. -/
def Moment.Nests (w : World σ) (m : Moment σ) : Prop :=
  ∃ ctx i rest effect, m.page.agenda = (ctx, i) :: rest ∧
    i.plan m.page.template ctx = .effect effect ∧ effect.Nests w m.progress.host

/-- Where a template is opened, it is by such an instruction. -/
theorem Moment.opens_iff_nests : m.Opens (Render.worldSetting w) ↔ m.Nests w := by
  constructor
  · rintro ⟨insertion, ctx, next, hmove⟩
    obtain ⟨i, rest, effect, q, hagenda, hplan, heffect⟩ := exists_of_move_opens hmove
    refine ⟨ctx, i, rest, effect, hagenda, hplan, ?_⟩
    exact (Render.perform_eq_some_iff w effect m.progress).1 ⟨insertion, q, heffect⟩
  · rintro ⟨ctx, i, rest, effect, hagenda, hplan, hnests⟩
    obtain ⟨insertion, q, heffect⟩ := (Render.perform_eq_some_iff w effect m.progress).2 hnests
    refine ⟨insertion, ctx, ⟨⟨m.page.template, rest⟩, m.frames, q⟩, ?_⟩
    unfold move
    rw [hagenda]
    dsimp only
    rw [hplan, follow, heffect]

/-! ## When a rendering is stopped -/

/-- Where a walk comes to a moment that opens a template and has reached the limit, the rendering is
stopped. -/
theorem exists_error_of_opens {t : Template} {view : Value} {p : Progress σ}
    (hwalk : Walk (Render.worldSetting w) (some w.limit) (.start t view p) m)
    (hopens : m.Opens (Render.worldSetting w)) (hlimit : w.limit ≤ m.nesting) :
    ∃ e q, t.render (Render.worldSetting w) view p = .error e q ∧ e.kind = .maxIncludeDepth := by
  obtain ⟨b, hturn, hb⟩ := hopens.turn_eq_fails hlimit
  obtain ⟨q, hsettle⟩ := exists_settle b.frames b.error b.progress
  have houtcome : (m.turn (Render.worldSetting w) (some w.limit)).outcome? =
      some (.error (.includeLimit w.limit) q) := by
    rw [hturn, Turn.outcome?, Breakdown.outcome, hsettle, hb]
    rfl
  exact ⟨_, q, render_eq_of_outcome? hwalk houtcome, rfl⟩

/-- Without any limit, a rendering comes to a moment that is as deep as the limit and opens a
template. -/
def Exceeds (w : World σ) (t : Template) (view : Value) (p : Progress σ) : Prop :=
  ∃ m, Walk (Render.worldSetting w) none (.start t view p) m ∧ m.nesting = w.limit ∧ m.Nests w

/-- A rendering is stopped exactly if without any limit it would exceed the limit. -/
theorem render_stops_iff (w : World σ) (t : Template) (view : Value) (p : Progress σ) :
    (∃ e q, t.render (Render.worldSetting w) view p = .error e q ∧ e.kind = .maxIncludeDepth) ↔
      Exceeds w t view p := by
  constructor
  · rintro ⟨e, q, hrender, hkind⟩
    obtain ⟨last, b, hwalk, hturn, hb⟩ := exists_breakdown_of_render hrender
    obtain ⟨hopens, hge⟩ :=
      Moment.opens_of_turn_fails hturn ((kind_of_settle hb).symm.trans hkind)
    have hle : last.nesting ≤ w.limit := Walk.nesting_le hwalk (Nat.zero_le _)
    exact ⟨last, hwalk.unbounded, Nat.le_antisymm hle hge, Moment.opens_iff_nests.1 hopens⟩
  · rintro ⟨m, hwalk, hnesting, hnests⟩
    rcases hwalk.bounded_or_stopped w.limit with hbounded | ⟨k, hbounded, hopens, hlimit⟩
    · exact exists_error_of_opens hbounded (Moment.opens_iff_nests.2 hnests) hnesting.ge
    · exact exists_error_of_opens hbounded hopens hlimit

/-- A template without instructions opens nothing. -/
theorem not_exceeds_of_program_nil {t : Template} (ht : t.program = []) (view : Value)
    (p : Progress σ) : ¬ Exceeds w t view p := by
  rintro ⟨m, hwalk, -, ctx, i, rest, effect, hcons, -⟩
  have hagenda : (Moment.start t view p).page.agenda = [] := by
    simp [Moment.start, Page.first, Agenda.ofBody, ht]
  rcases Relation.ReflTransGen.cases_head hwalk with rfl | ⟨next, hturn, -⟩
  · rw [hagenda] at hcons
    cases hcons
  · have hmove : (Moment.start t view p).move (Render.worldSetting w) = .ends p := by
      unfold Moment.move
      rw [hagenda]
      rfl
    unfold Moment.turn at hturn
    rw [hmove] at hturn
    cases hturn

end Stepwise

/-! ## Sessions -/

/-- What comes of a rendering, as its outcome tells. -/
def Rendered.ofOutcome : EStateM.Result Error (Progress σ) Unit → Rendered σ
  | .ok _ p => ⟨none, p.sink, p.calls, p.host⟩
  | .error e p => ⟨some e, p.sink, p.calls, p.host⟩

theorem BareSession.draw_eq_ofOutcome (host : Host σ) (b : BareSession σ) (t : Template)
    (view : Value) (sink : Sink) :
    b.draw host t view sink = .ofOutcome
      (t.render (Render.worldSetting (b.world host)) view ⟨[], [], [], b.host, sink⟩) := by
  show (match t.render (b.setting host) view ⟨[], [], [], b.host, sink⟩ with
    | .ok _ p => _ | .error e p => _) = _
  have hsetting : b.setting host = Render.worldSetting (b.world host) := rfl
  rw [hsetting]
  cases t.render (Render.worldSetting (b.world host)) view ⟨[], [], [], b.host, sink⟩ <;> rfl

/-- The empty source has no instructions. -/
theorem Template.compile_empty (pair : Delimiters) : compile pair "" = .ok ⟨"", pair, []⟩ := by
  have hscan : Scan.read pair [] = ⟨[], .finished pair⟩ := Scan.read_of_ended rfl
  unfold compile tree Token.ofSource
  rw [String.toList_empty, hscan]
  rfl

/-- What comes of a rendering is a failure of some kind if its outcome is one. -/
theorem Rendered.ofOutcome_failure_iff (r : EStateM.Result Error (Progress σ) Unit)
    (kind : ErrorKind) :
    (∃ e, (ofOutcome r).failure = some e ∧ e.kind = kind) ↔
      ∃ e q, r = .error e q ∧ e.kind = kind := by
  cases r <;> simp [ofOutcome]

namespace BareSession

/-- A compiled template is stopped at the limit exactly if it would exceed the limit. -/
theorem draw_stops_iff (host : Host σ) (b : BareSession σ) (t : Template) (view : Value)
    (sink : Sink) :
    (∃ e, (b.draw host t view sink).failure = some e ∧ e.kind = .maxIncludeDepth) ↔
      Stepwise.Exceeds (b.world host) t view ⟨[], [], [], b.host, sink⟩ := by
  rw [draw_eq_ofOutcome, Rendered.ofOutcome_failure_iff]
  exact Stepwise.render_stops_iff (b.world host) t view _

/-- A source is stopped at the limit exactly if it compiles and would exceed the limit. -/
theorem render_stops_iff (host : Host σ) (b : BareSession σ) (source : String) (view : Value) :
    (∃ e, (b.render host source view).failure = some e ∧ e.kind = .maxIncludeDepth) ↔
      ∃ t, Template.compile b.delimiters source = .ok t ∧
        Stepwise.Exceeds (b.world host) t view ⟨[], [], [], b.host, .empty⟩ := by
  unfold render
  split
  · rename_i hempty
    refine iff_of_false ?_ ?_
    · rintro ⟨e, he, -⟩
      cases he
    · rintro ⟨t, ht, hexceeds⟩
      rw [String.isEmpty_iff.1 hempty, Template.compile_empty] at ht
      cases ht
      exact Stepwise.not_exceeds_of_program_nil rfl view _ hexceeds
  · unfold drawSource
    cases hcompile : Template.compile b.delimiters source with
    | ok t =>
      dsimp only
      rw [draw_stops_iff]
      constructor
      · exact fun hexceeds => ⟨t, rfl, hexceeds⟩
      · rintro ⟨u, hu, hexceeds⟩
        cases hu
        exact hexceeds
    | error e =>
      obtain ⟨flaw, rfl⟩ := Template.exists_finding_of_compile_error hcompile
      refine iff_of_false ?_ ?_
      · rintro ⟨e, he, hkind⟩
        cases he
        exact Fault.kind_ne_maxIncludeDepth _ hkind
      · rintro ⟨t, ht, -⟩
        cases ht

end BareSession

/-- After any requests, every rendering of a session comes to an end: no walk goes on forever, all
lead to one last moment, and none comes to a moment that is nested deeper than the limit.  The
rendering is stopped at the limit exactly if without any limit it would exceed the limit. -/
theorem Session.nesting_bounded (host : Host σ) (delimiters : Delimiters) (limit : Nat) (init : σ)
    (history : List Request) (source : String) (t : Template) (view : Value) (sink : Sink) :
    let s := ((Session.start delimiters limit init).answerAll host history).2
    let w : World σ := ⟨delimiters, s.engine.partials, s.engine.limit, host⟩
    let setting := Render.worldSetting w
    let start := Stepwise.Moment.start t view ⟨[], [], [], s.host, sink⟩
    (∃ last r a, Stepwise.Walk setting (some w.limit) start last ∧
      (last.turn setting (some w.limit)).outcome?.map Rendered.ofOutcome = some r ∧
      Engine.draw host t view sink ⟨s.engine, s.host, [], []⟩ = .ok (r.failure, r.sink) a ∧
      a.calls = r.calls ∧ a.host = r.host ∧
      Acc (fun later earlier => earlier.turn setting (some w.limit) = .goes later) start ∧
      (∀ m, Stepwise.Walk setting (some w.limit) start m →
        Stepwise.Walk setting (some w.limit) m last ∧ m.nesting ≤ w.limit) ∧
      ((∃ e, r.failure = some e ∧ e.kind = .maxIncludeDepth) ↔
        Stepwise.Exceeds w t view ⟨[], [], [], s.host, sink⟩)) ∧
    ((∃ e a, Engine.render host source view ⟨s.engine, s.host, [], []⟩ = .error e a ∧
        e.kind = .maxIncludeDepth) ↔
      ∃ compiled, Template.compile delimiters source = .ok compiled ∧
        Stepwise.Exceeds w compiled view ⟨[], [], [], s.host, .empty⟩) := by
  intro s w setting start
  obtain ⟨b, hmirrors, hpair, hhost, hworld⟩ :=
    Session.exists_mirrors host delimiters limit init history
  have hdrawn := BareSession.draw_eq_ofOutcome host b t view sink
  rw [hworld, hhost] at hdrawn
  constructor
  · obtain ⟨a, hdraw, hcalls, ha⟩ := hmirrors.draw rfl host t view sink
    obtain ⟨last, hwalk, houtcome⟩ := Stepwise.exists_walk_render setting t view
      ⟨[], [], [], s.host, sink⟩
    have hends : (last.turn setting (some w.limit)).outcome? =
        some (t.render setting view ⟨[], [], [], s.host, sink⟩) := houtcome
    have hsome : (last.turn setting (some w.limit)).outcome? ≠ none := by
      rw [hends]
      simp
    have hstops := BareSession.draw_stops_iff host b t view sink
    rw [hworld, hhost] at hstops
    refine ⟨last, b.draw host t view sink, a, hwalk, ?_, hdraw, hcalls, ha.host,
      Stepwise.Walk.acc hwalk hsome, ?_, hstops⟩
    · rw [hends, hdrawn]
      rfl
    · intro m hm
      exact ⟨hwalk.to_last hsome hm, hm.nesting_le (Nat.zero_le _)⟩
  · obtain ⟨a, hrender, -, -⟩ := hmirrors.render rfl host source view
    have hstops := BareSession.render_stops_iff host b source view
    rw [hworld, hhost, hpair] at hstops
    rw [hrender, ← hstops]
    unfold Rendered.outcome
    cases (b.render host source view).failure <;> simp

end Mustache
