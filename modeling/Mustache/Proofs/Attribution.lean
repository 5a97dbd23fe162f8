import Mustache.Proofs.NestingBound

/-!
# The partial that is named in an error

An error that has a place points into some text: the template, the source of a
partial, or the text of a lambda.  On its way outwards it is named after the
innermost partial into whose source it points, as far as sources can tell.  So an
error in a partial is named after this partial, and an error in the template after
none.  An error in the text of a lambda is named after a partial around it if this
partial has the same text, for then the sources do not tell the two apart.

Main results:

- Theorem `Stepwise.exists_of_settle_flawed`: the finding that an error had first.
- Theorem `Stepwise.Walk.grounded`: every text that is being read comes from where
  its frame says.
- Theorem `Session.partialName_eq`: the partial that an error names.
-/

namespace Mustache

variable {σ : Type}

namespace Stepwise

/-- An error with a place has had it from the beginning. -/
theorem exists_of_settle_flawed {frames : List Frame} {e : Error} {p q : Progress σ}
    {finding : Finding} (h : settle frames e p = .error (.flawed finding) q) :
    ∃ raw, e = .flawed raw ∧ finding = named frames raw := by
  obtain ⟨q', hq'⟩ := exists_settle frames e p
  rw [hq'] at h
  cases e with
  | flawed raw =>
    cases h
    exact ⟨raw, rfl, rfl⟩
  | _ => cases h

/-! ## Where texts come from -/

/-- A source is a text of some kind: that of the template, the indented source of the partial of a
name, or an answer of a lambda. -/
def Origin.Owns (w : World σ) (t : Template) (source : String) : Origin → Prop
  | .template => source = t.source
  | .inclusion name => ∃ stored indent, Dictionary.get? w.partials name = some stored ∧
      source = Template.indented indent stored
  | .expansion => ∃ (call : Call) (host : σ),
      source = (w.host.answer call.lambda call.argument host).1

/-- A partial is kept in its frame with its source. -/
def Entry.Keeps (source : String) : Entry → Prop
  | .inclusion _ own => own = source
  | .expansion _ => True

/-- Every template in a stack comes from where its frame says. -/
def Grounded (w : World σ) (t : Template) : Template → List Frame → Prop
  | inner, [] => Origin.template.Owns w t inner.source
  | inner, f :: frames => f.entry.origin.Owns w t inner.source ∧ f.entry.Keeps inner.source ∧
      Grounded w t f.outer.template frames

/-- All that is being read at a moment comes from where its frame says. -/
def Moment.Grounded (w : World σ) (t : Template) (m : Moment σ) : Prop :=
  Stepwise.Grounded w t m.page.template m.frames

variable {w : World σ} {t : Template} {m m' : Moment σ}

/-- The template that is being read is a text of the kind that its frame says. -/
theorem Moment.Grounded.owns (h : m.Grounded w t) :
    m.origin.Owns w t m.page.template.source := by
  unfold Moment.Grounded at h
  unfold Moment.origin
  cases hframes : m.frames with
  | nil =>
    rw [hframes] at h
    exact h
  | cons f frames =>
    rw [hframes] at h
    exact h.1

/-- What an effect leaves to be rendered is a text of the kind under which it is entered. -/
theorem owns_of_perform {effect : Effect} {p q : Progress σ} {insertion : Insertion}
    (h : Render.perform (Render.worldSetting w) effect p = .ok (some insertion) q) (sink : Sink) :
    (entryOf sink insertion).origin.Owns w t (sourceOf insertion) := by
  cases effect with
  | write pieces =>
    exact ((Render.perform_eq_some_iff w _ p).1 ⟨insertion, q, h⟩).elim
  | refuse finding => cases h
  | ask call capture =>
    rw [Render.perform_ask_apply] at h
    unfold Insertion.ofAnswer? at h
    dsimp only at h
    split at h
    · cases h
    · cases h
      exact ⟨call, p.host, rfl⟩
  | load name indent =>
    rw [Render.perform_load_apply] at h
    split at h
    · cases h
    · rename_i stored hstored
      split at h
      · rename_i inner hcompile
        cases h
        exact ⟨stored, indent, hstored, Template.source_of_compile hcompile⟩
      · cases h

theorem owns_of_move_opens {insertion : Insertion} {ctx : Context}
    (h : m.move (Render.worldSetting w) = .opens insertion ctx m') (sink : Sink) :
    (entryOf sink insertion).origin.Owns w t (sourceOf insertion) := by
  obtain ⟨i, rest, effect, q, -, -, heffect⟩ := Moment.exists_of_move_opens h
  exact owns_of_perform heffect sink

/-- A turn leaves everything where it comes from. -/
theorem Moment.Grounded.turn {bound : Option Nat} (h : m.Grounded w t)
    (hturn : m.turn (Render.worldSetting w) bound = .goes m') : m'.Grounded w t := by
  unfold Moment.Grounded at h ⊢
  rcases turn_cases hturn with ⟨hframes, htemplate⟩ | ⟨f, hframes, hpage⟩ |
    ⟨insertion, ctx, k, hmove, henter, -⟩
  · rwa [hframes, htemplate]
  · rw [hframes] at h
    rw [hpage]
    exact h.2.2
  · obtain ⟨hframes, hsource⟩ := eq_of_enter henter
    obtain ⟨hkept, htemplate⟩ := eq_of_move_opens hmove
    rw [hframes]
    refine ⟨?_, ?_, ?_⟩
    · rw [hsource]
      exact owns_of_move_opens hmove _
    · rw [hsource]
      cases insertion <;> trivial
    · rwa [htemplate, hkept]

/-- Throughout a rendering, every text that is being read comes from where its frame says. -/
theorem Walk.grounded {bound : Option Nat} {view : Value} {p : Progress σ}
    (h : Walk (Render.worldSetting w) bound (.start t view p) m) : m.Grounded w t := by
  induction h with
  | refl => exact rfl
  | tail _ hturn ih => exact ih.turn hturn

/-! ## The name of an error -/

/-- The name that a breakdown with a place in a source gets in the end. -/
def Breakdown.name? (b : Breakdown σ) (source : String) : Option String :=
  match b.origin with
  | .template => none
  | .inclusion name => some name
  | .expansion => b.frames.findSome? (Frame.owner? source)

/-- A breakdown points into a text of its kind, and gets its name. -/
def Breakdown.Placed (w : World σ) (t : Template) (b : Breakdown σ) : Prop :=
  ∀ finding, b.error = .flawed finding → b.origin.Owns w t finding.source ∧
    finding.inPartial.or (b.frames.findSome? (Frame.owner? finding.source)) =
      b.name? finding.source

/-- An effect fails in a text where a value has none, or where a partial does not compile. -/
theorem perform_flawed_cases {effect : Effect} {p q : Progress σ} {finding : Finding}
    (h : Render.perform (Render.worldSetting w) effect p = .error (.flawed finding) q) :
    effect = .refuse finding ∨
      ∃ name indent stored, effect = .load name indent ∧
        Dictionary.get? w.partials name = some stored ∧
        finding.source = Template.indented indent stored ∧ finding.inPartial = some name := by
  cases effect with
  | write pieces =>
    change EStateM.bind (Render.emitAll pieces) _ p = _ at h
    unfold EStateM.bind at h
    split at h
    · cases h
    · rename_i hwrite
      obtain ⟨reason, rfl⟩ := Render.exists_device_of_emitAll hwrite
      cases h
  | refuse other =>
    cases h
    exact .inl rfl
  | ask call capture => cases h
  | load name indent =>
    rw [Render.perform_load_apply] at h
    split at h
    · cases h
    · rename_i stored hstored
      split at h
      · cases h
      · rename_i hcompile
        obtain ⟨flaw, rfl⟩ := Template.exists_finding_of_compile_error hcompile
        cases h
        exact .inr ⟨name, indent, stored, rfl, hstored, rfl, rfl⟩

/-- A value that has no text is found in the template that is being read. -/
theorem eq_of_ofValue_refuse {escaping : Escaping} {target : Reference} {v : Value}
    {finding : Finding} (h : Effect.ofValue t escaping target v = .refuse finding) :
    finding.source = t.source ∧ finding.inPartial = none := by
  unfold Effect.ofValue at h
  split at h
  · cases h
  · split at h
    · cases h
      exact ⟨rfl, rfl⟩
    · cases h

theorem eq_of_plan_refuse {ctx : Context} {i : Instr} {finding : Finding}
    (h : i.plan t ctx = .effect (.refuse finding)) :
    finding.source = t.source ∧ finding.inPartial = none := by
  cases i with
  | text | inclusion => cases h
  | interpolation escaping target =>
    rw [Instr.plan] at h
    split at h
    · cases h
    · cases h
    · exact eq_of_ofValue_refuse (Plan.effect.inj h)
  | block polarity target raw body =>
    cases polarity with
    | upright =>
      rw [Instr.plan] at h
      split at h
      · cases h
      · cases h
      · cases h
      · split at h <;> cases h
    | inverted =>
      rw [Instr.plan] at h
      split at h <;> cases h

/-- The text that is being read gives its name to a breakdown in it. -/
theorem Moment.Grounded.findSome?_owner? (h : m.Grounded w t) :
    m.frames.findSome? (Frame.owner? m.page.template.source) =
      match m.origin with
      | .template => none
      | .inclusion name => some name
      | .expansion => m.frames.findSome? (Frame.owner? m.page.template.source) := by
  unfold Moment.Grounded at h
  unfold Moment.origin
  cases hframes : m.frames with
  | nil => rfl
  | cons f frames =>
    obtain ⟨entry, outer⟩ := f
    rw [hframes] at h
    cases entry with
    | inclusion name own =>
      have hown : own = m.page.template.source := h.2.1
      simp [Entry.origin, Frame.owner?, hown]
    | expansion aside => rfl

theorem Moment.Grounded.placed_of_move {b : Breakdown σ} (h : m.Grounded w t)
    (hmove : m.move (Render.worldSetting w) = .fails b) : b.Placed w t := by
  intro finding hfinding
  rcases move_fails_cases hmove with ⟨reason, hdevice⟩ |
    ⟨ctx, i, effect, hplan, heffect, horigin, hframes⟩
  · rw [hfinding] at hdevice
    cases hdevice
  · rw [hfinding] at heffect
    unfold Breakdown.name?
    rw [horigin, hframes]
    rcases perform_flawed_cases heffect with rfl |
      ⟨name, indent, stored, rfl, hstored, hsource, hname⟩
    · obtain ⟨hsource, hnone⟩ := eq_of_plan_refuse hplan
      rw [hsource, hnone, Option.none_or]
      exact ⟨h.owns, h.findSome?_owner?⟩
    · rw [hname]
      exact ⟨⟨stored, indent, hstored, hsource⟩, rfl⟩

/-- A breakdown points into a text of its kind, and gets its name. -/
theorem Moment.Grounded.placed {bound : Option Nat} {b : Breakdown σ} (h : m.Grounded w t)
    (hturn : m.turn (Render.worldSetting w) bound = .fails b) : b.Placed w t := by
  rcases turn_fails_cases hturn with hmove | ⟨insertion, ctx, k, hmove, ⟨limit, -, hlimit⟩ | henter⟩
  · exact h.placed_of_move hmove
  · intro finding hfinding
    rw [hlimit] at hfinding
    cases hfinding
  · intro finding hfinding
    obtain ⟨hcompile, hentry, horigin, hframes⟩ := exists_of_enter_fails henter
    obtain ⟨flaw, hflaw⟩ := Template.exists_finding_of_compile_error hcompile
    rw [hfinding] at hflaw
    cases hflaw
    have howns := owns_of_move_opens (t := t) hmove k.progress.sink
    rw [hentry] at howns
    unfold Breakdown.name?
    rw [horigin]
    exact ⟨howns, rfl⟩

/-- A rendering that fails in a text has come to a moment that breaks down in this text, and the
error is named as the breakdown says. -/
theorem exists_placed_of_render {view : Value} {p q : Progress σ} {finding : Finding}
    (h : t.render (Render.worldSetting w) view p = .error (.flawed finding) q) :
    ∃ last b raw, Walk (Render.worldSetting w) (some w.limit) (.start t view p) last ∧
      last.turn (Render.worldSetting w) (some w.limit) = .fails b ∧
      b.error = .flawed raw ∧ raw.flaw = finding.flaw ∧ raw.source = finding.source ∧
      b.origin.Owns w t finding.source ∧ finding.inPartial = b.name? finding.source := by
  obtain ⟨last, b, hwalk, hturn, hb⟩ := exists_breakdown_of_render h
  obtain ⟨raw, hraw, rfl⟩ := exists_of_settle_flawed hb
  have hgrounded : last.Grounded w t := hwalk.grounded
  obtain ⟨howns, hname⟩ := hgrounded.placed hturn raw hraw
  exact ⟨last, b, raw, hwalk, hturn, hraw, rfl, rfl, howns, hname⟩

end Stepwise

/-- After any requests, a rendering that fails in a text has come to a moment that breaks down in
this text, and the text decides the name of the error.  An error in the template has no name, and
one in the source of a partial has the name of the partial.  An error in the text of a lambda has
the name of the innermost partial around it whose source is the same text, if there is any. -/
theorem Session.partialName_eq (host : Host σ) (delimiters : Delimiters) (limit : Nat) (init : σ)
    (history : List Request) (t : Template) (view : Value) (sink : Sink) :
    let s := ((Session.start delimiters limit init).answerAll host history).2
    let w : World σ := ⟨delimiters, s.engine.partials, s.engine.limit, host⟩
    let setting := Render.worldSetting w
    let start := Stepwise.Moment.start t view ⟨[], [], [], s.host, sink⟩
    match Engine.draw host t view sink ⟨s.engine, s.host, [], []⟩ with
    | .ok (some (.flawed finding), _) _ =>
      ∃ last b raw, Stepwise.Walk setting (some w.limit) start last ∧
        last.turn setting (some w.limit) = .fails b ∧
        b.error = .flawed raw ∧ raw.flaw = finding.flaw ∧ raw.source = finding.source ∧
        b.origin.Owns w t finding.source ∧ finding.inPartial = b.name? finding.source
    | _ => True := by
  intro s w setting start
  obtain ⟨b, hmirrors, -, hhost, hworld⟩ :=
    Session.exists_mirrors host delimiters limit init history
  have hdrawn := BareSession.draw_eq_ofOutcome host b t view sink
  rw [hworld, hhost] at hdrawn
  obtain ⟨a, hdraw, -, -⟩ := hmirrors.draw rfl host t view sink
  rw [hdraw, hdrawn]
  cases hrender : t.render setting view ⟨[], [], [], s.host, sink⟩ with
  | ok u p => trivial
  | error e p =>
    cases e with
    | flawed finding => exact Stepwise.exists_placed_of_render hrender
    | _ => trivial

/-- A lambda inside a partial answers with the text of the partial itself, and there with nothing.
The rendering fails in the answer, but the error is named after the partial. -/
theorem Session.partialName_of_same_text :
    let host : Host Nat := ⟨fun _ _ n => (if n = 0 then "{{f}}{{x}}" else "", n + 1)⟩
    let view : Value :=
      .map [("f", .lambda ⟨0, .interpolation⟩), ("x", .map [("a", .integer 1)])]
    let s := ((Session.start .standard 64 0).answerAll host [.addPartial "p" "{{f}}{{x}}"]).2
    let t := (Template.compile .standard "{{>p}}").toOption.getD ⟨"", .standard, []⟩
    let setting := Render.worldSetting ⟨.standard, s.engine.partials, s.engine.limit, host⟩
    let start := Stepwise.Moment.start t view ⟨[], [], [], s.host, .empty⟩
    (∃ e reached a, Engine.draw host t view .empty ⟨s.engine, s.host, [], []⟩ =
      .ok (some e, reached) a ∧ e.partialName = some "p") ∧
    ∃ last b, Stepwise.Walk setting (some s.engine.limit) start last ∧
      last.turn setting (some s.engine.limit) = .fails b ∧ b.origin = .expansion := by
  intro host view s t setting start
  constructor
  · let history : List Request := [.addPartial "p" "{{f}}{{x}}"]
    let b := ((BareSession.start .standard 64 0).answerAll host history).2
    obtain ⟨-, hlast⟩ := (Session.represents_start .standard 64 0).answerAll host history
    obtain ⟨a, hdraw, -, -⟩ := hlast.engine.draw rfl host t view .empty
    have hnamed : (b.draw host t view .empty).failure.bind Error.partialName = some "p" := by
      decide +kernel
    obtain ⟨e, he, hname⟩ := Option.bind_eq_some_iff.1 hnamed
    refine ⟨e, (b.draw host t view .empty).sink, a, ?_, hname⟩
    rw [← he]
    exact hdraw
  · have horigin : ((start.after setting (some s.engine.limit) 5).turn setting
        (some s.engine.limit)).breakdown?.map Stepwise.Breakdown.origin = some .expansion := by
      decide +kernel
    obtain ⟨b, hb, horigin⟩ := Option.map_eq_some_iff.1 horigin
    exact ⟨_, b, Stepwise.walk_after setting _ 5 start, Stepwise.Turn.breakdown?_eq_some_iff.1 hb,
      horigin⟩

end Mustache
