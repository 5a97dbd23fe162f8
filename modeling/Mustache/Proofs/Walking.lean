import Mustache.Proofs.Stepwise

/-!
# Renderings as walks

A rendering comes to what a walk through its moments comes to.  Instructions that
are carried out in the middle of a template lead to the moment at which the rest
of it is left, whatever this rest and the templates around are.  If they fail,
the walk has reached a moment that breaks down with the same error, once this has
passed through the templates around.

Main results:

- Theorem `Moment.enter_cases`: a template is rendered inside another one in a
  frame, which is left at its end.
- Theorem `Tracks.leave`: a walk inside a frame is one that leaves it.
- Theorem `tracks_runInstr`: a walk carries out an instruction.
- Theorem `exists_walk_render`: a walk renders a template.
-/

namespace Mustache

/-- The text of a lambda is reported, compiled and run. -/
theorem Render.runText_apply {σ : Type} (s : Setting σ) (run : Nested σ) (t : Template)
    (ctx : Context) (text : String) (p : Progress σ) :
    runText s (some run) t ctx text p =
      let reported := { p with events := p.events ++ [.expandingLambda (Event.sizeOf text)] }
      match Template.compile t.live text with
      | .error e => .error e reported
      | .ok inner => run inner ctx reported := by
  unfold runText
  cases Template.compile t.live text <;> rfl

namespace Stepwise

variable {σ : Type}

/-! ## Templates inside templates -/

/-- What the outcome of a template becomes where its frame is left. -/
def Frame.leave (f : Frame) (r : EStateM.Result Error (Progress σ) Unit) :
    EStateM.Result Error (Progress σ) Unit :=
  match f.entry, r with
  | .inclusion name source, .error e q => .error (e.blameOwner name source) q
  | .expansion (some (escaping, sink)), .ok _ q =>
    Render.emitAll (Render.textPieces escaping q.sink.text) { q with sink := sink }
  | .expansion (some (_, sink)), .error e q => .error e { q with sink := sink }
  | _, r => r

/-- The text of a lambda is rendered in a frame, which is left at its end, unless the text does not
compile. -/
theorem runInsertion_expansion (s : Setting σ) (run : Render.Nested σ) (page : Page)
    (ctx : Context) (capture : Option Escaping) (text : String) (p : Progress σ) :
    Render.runInsertion s (some run) page.template ctx (.expansion capture text) p =
      let reported := { p with events := p.events ++ [.expandingLambda (Event.sizeOf text)] }
      match Template.compile page.template.live text with
      | .error e => .error e reported
      | .ok inner =>
        Frame.leave ⟨.expansion (setAside capture p.sink).2, page⟩
          (run inner ctx { reported with sink := (setAside capture p.sink).1 }) := by
  cases capture with
  | none =>
    show Render.runText s (some run) page.template ctx text p = _
    rw [Render.runText_apply]
    rfl
  | some escaping =>
    show EStateM.bind (Render.captured (Render.runText s (some run) page.template ctx text)) _ p = _
    unfold EStateM.bind Render.captured
    rw [Render.runText_apply]
    cases Template.compile page.template.live text with
    | error e => rfl
    | ok inner =>
      dsimp only [setAside]
      cases run inner ctx _ <;> rfl

/-- A template is rendered inside another one in a frame, which is left at its end, unless it is the
text of a lambda and does not compile. -/
theorem Moment.enter_cases (s : Setting σ) (run : Render.Nested σ) (m : Moment σ) (ctx : Context)
    (insertion : Insertion) :
    (∃ e q, m.enter ctx insertion = .fails ⟨e, .expansion, m.frames, q⟩ ∧
      Render.runInsertion s (some run) m.page.template ctx insertion m.progress = .error e q) ∨
    ∃ inner f q, m.enter ctx insertion = .goes ⟨.first inner ctx, f :: m.frames, q⟩ ∧
      f.outer = m.page ∧
      Render.runInsertion s (some run) m.page.template ctx insertion m.progress =
        f.leave (run inner ctx q) := by
  cases insertion with
  | inclusion name inner =>
    refine .inr ⟨inner, ⟨.inclusion name inner.source, m.page⟩, m.progress, rfl, rfl, ?_⟩
    show Render.mapError (Error.blameOwner name inner.source) (run inner ctx) m.progress = _
    unfold Render.mapError
    cases run inner ctx m.progress <;> rfl
  | expansion capture text =>
    rw [runInsertion_expansion, enter]
    cases Template.compile m.page.template.live text with
    | error e => exact .inl ⟨e, _, rfl, rfl⟩
    | ok inner => exact .inr ⟨inner, _, _, rfl, rfl, rfl⟩

/-! ## Following a part of a rendering -/

/-- A walk follows a part of a rendering inside some templates: a result leads to the next moment,
and an error to a moment that breaks down with this error, once it has passed through the templates
around. -/
def Tracks (s : Setting σ) (frames : List Frame) (r : EStateM.Result Error (Progress σ) Unit)
    (m : Moment σ) (next : Progress σ → Moment σ) : Prop :=
  match r with
  | .ok _ q => Walk s (some s.limit) m (next q)
  | .error e q => ∃ last b, Walk s (some s.limit) m last ∧
      last.turn s (some s.limit) = .fails b ∧ b.outcome = settle frames e q

variable {s : Setting σ} {frames : List Frame}

/-- A walk comes first. -/
theorem Tracks.after {r : EStateM.Result Error (Progress σ) Unit} {m m' : Moment σ}
    {next : Progress σ → Moment σ} (hwalk : Walk s (some s.limit) m m')
    (h : Tracks s frames r m' next) : Tracks s frames r m next := by
  cases r with
  | ok u q =>
    have hrest : Walk s (some s.limit) m' (next q) := h
    exact hwalk.trans hrest
  | error e q =>
    obtain ⟨last, b, hrest, hlast, hb⟩ := h
    exact ⟨last, b, hwalk.trans hrest, hlast, hb⟩

/-- Parts follow each other. -/
theorem Tracks.bind {x y : Render σ Unit} {p : Progress σ} {m : Moment σ}
    {mid next : Progress σ → Moment σ} (hx : Tracks s frames (x p) m mid)
    (hy : ∀ q, Tracks s frames (y q) (mid q) next) :
    Tracks s frames ((x >>= fun _ => y) p) m next := by
  show Tracks s frames (EStateM.bind x (fun _ => y) p) m next
  unfold EStateM.bind
  cases hxp : x p with
  | error e q =>
    rw [hxp] at hx
    exact hx
  | ok u q =>
    rw [hxp] at hx
    exact (hy q).after hx

/-- A walk inside a frame is one that leaves the frame. -/
theorem Tracks.leave {f : Frame} {r : EStateM.Result Error (Progress σ) Unit} {m : Moment σ}
    {t : Template} (h : Tracks s (f :: frames) r m fun q => ⟨⟨t, []⟩, f :: frames, q⟩) :
    Tracks s frames (f.leave r) m fun q => ⟨f.outer, frames, q⟩ := by
  obtain ⟨entry, outer⟩ := f
  cases r with
  | ok u q =>
    refine Tracks.after h ?_
    cases entry with
    | inclusion name source => exact Relation.ReflTransGen.single rfl
    | expansion aside =>
      cases aside with
      | none => exact Relation.ReflTransGen.single rfl
      | some aside =>
        obtain ⟨escaping, sink⟩ := aside
        -- The text is written where the frame is left, and this may fail.
        let last : Moment σ := ⟨⟨t, []⟩, ⟨.expansion (some (escaping, sink)), outer⟩ :: frames, q⟩
        show Tracks s frames
          (Render.emitAll (Render.textPieces escaping q.sink.text) { q with sink := sink }) last _
        cases hwrite : Render.emitAll (Render.textPieces escaping q.sink.text)
          { q with sink := sink } with
        | ok u q' =>
          refine Relation.ReflTransGen.single ?_
          simp only [Moment.turn, Moment.move, Frame.resume, last, hwrite]
        | error e q' =>
          refine ⟨last, ⟨e, .expansion, frames, q'⟩, .refl, ?_, rfl⟩
          simp only [Moment.turn, Moment.move, Frame.resume, last, hwrite]
  | error e q =>
    obtain ⟨last, b, hwalk, hlast, hb⟩ := h
    cases entry with
    | inclusion name source => exact ⟨last, b, hwalk, hlast, hb⟩
    | expansion aside =>
      cases aside with
      | none => exact ⟨last, b, hwalk, hlast, hb⟩
      | some aside => exact ⟨last, b, hwalk, hlast, hb⟩

/-! ## Instructions -/

/-- Walks follow all templates in which others may be nested to a given depth. -/
def TracksTemplates (s : Setting σ) (depth : Nat) : Prop :=
  ∀ (t : Template) (ctx : Context) (frames : List Frame) (p : Progress σ),
    frames.length + depth = s.limit →
    Tracks s frames (Render.runTemplate s depth t ctx p) ⟨.first t ctx, frames, p⟩
      fun q => ⟨⟨t, []⟩, frames, q⟩

/-- A walk follows a template that is to be rendered, as far as the bound allows. -/
theorem tracks_runInsertion {depth : Nat} {m m' : Moment σ} {insertion : Insertion} {ctx : Context}
    (hinner : ∀ d, depth = d + 1 → TracksTemplates s d)
    (hmove : m.move s = .opens insertion ctx m') (hdepth : m'.nesting + depth = s.limit) :
    Tracks s m'.frames
      (Render.runInsertion s (Render.nestedAt s depth) m'.page.template ctx insertion m'.progress)
      m fun q => ⟨m'.page, m'.frames, q⟩ := by
  cases depth with
  | zero =>
    have hreached : reached? (some s.limit) m'.nesting = some s.limit :=
      reached?_eq_some_iff.2 ⟨rfl, by omega⟩
    have hturn : m.turn s (some s.limit) =
        .fails ⟨.includeLimit s.limit, m'.origin, m'.frames, m'.progress⟩ := by
      unfold Moment.turn
      rw [hmove]
      dsimp only
      rw [hreached]
    have hrun : Render.runInsertion s none m'.page.template ctx insertion m'.progress =
        .error (.includeLimit s.limit) m'.progress := by
      cases insertion with
      | inclusion name inner => rfl
      | expansion capture text => cases capture <;> rfl
    rw [Render.nestedAt, hrun]
    exact ⟨m, _, .refl, hturn, rfl⟩
  | succ d =>
    have hbelow : reached? (some s.limit) m'.nesting = none :=
      reached?_some_eq_none_iff.2 (by omega)
    have hturn : m.turn s (some s.limit) = m'.enter ctx insertion := by
      unfold Moment.turn
      rw [hmove]
      dsimp only
      rw [hbelow]
    rw [Render.nestedAt]
    rcases Moment.enter_cases s (Render.runTemplate s d) m' ctx insertion with
      ⟨e, q, henter, hrun⟩ | ⟨inner, f, q, henter, houter, hrun⟩
    · rw [hrun]
      exact ⟨m, _, .refl, hturn.trans henter, rfl⟩
    · rw [hrun, ← houter]
      have hwalk : Walk s (some s.limit) m ⟨.first inner ctx, f :: m'.frames, q⟩ :=
        .single (hturn.trans henter)
      have hdepth' : (f :: m'.frames).length + d = s.limit := by
        rw [List.length_cons]
        unfold Moment.nesting at hdepth
        omega
      exact Tracks.after hwalk (hinner d rfl inner ctx _ q hdepth').leave

/-- A walk carries out instructions in the middle of a template if it carries out each of them. -/
theorem tracks_runAgenda {nested : Option (Render.Nested σ)} {t : Template} {agenda : Agenda}
    (h : ∀ entry ∈ agenda, ∀ rest p,
      Tracks s frames (Render.runInstr s nested t entry.1 entry.2 p)
        ⟨⟨t, entry :: rest⟩, frames, p⟩ fun q => ⟨⟨t, rest⟩, frames, q⟩)
    (rest : Agenda) (p : Progress σ) :
    Tracks s frames (Render.runAgenda s nested t agenda p) ⟨⟨t, agenda ++ rest⟩, frames, p⟩
      fun q => ⟨⟨t, rest⟩, frames, q⟩ := by
  induction agenda generalizing p with
  | nil => exact Relation.ReflTransGen.refl
  | cons entry agenda ih =>
    refine Tracks.bind (h entry List.mem_cons_self (agenda ++ rest) p) fun q => ?_
    exact ih (fun entry hentry => h entry (List.mem_cons_of_mem _ hentry)) q

/-- A walk carries out an instruction in the middle of a template. -/
theorem tracks_runInstr {depth : Nat} (hinner : ∀ d, depth = d + 1 → TracksTemplates s d)
    (hdepth : frames.length + depth = s.limit) (t : Template) (ctx : Context) (i : Instr)
    (rest : Agenda) (p : Progress σ) :
    Tracks s frames (Render.runInstr s (Render.nestedAt s depth) t ctx i p)
      ⟨⟨t, (ctx, i) :: rest⟩, frames, p⟩ fun q => ⟨⟨t, rest⟩, frames, q⟩ := by
  induction i using Instr.induction_on_body generalizing ctx rest p with
  | step i ih =>
    let m : Moment σ := ⟨⟨t, (ctx, i) :: rest⟩, frames, p⟩
    have hmove : m.move s = m.follow s ctx rest (i.plan t ctx) := rfl
    rw [Render.runInstr_eq_runPlan]
    cases hplan : i.plan t ctx with
    | body agenda =>
      have hturn : m.turn s (some s.limit) = .goes ⟨⟨t, agenda ++ rest⟩, frames, p⟩ := by
        unfold Moment.turn
        rw [hmove, hplan]
        rfl
      refine Tracks.after (.single hturn) (tracks_runAgenda ?_ rest p)
      exact fun entry hentry => ih entry.2 (Instr.mem_body_of_plan hplan entry hentry) entry.1
    | effect effect =>
      show Tracks s frames (EStateM.bind (Render.perform s effect) _ p) _ _
      unfold EStateM.bind
      cases heffect : Render.perform s effect p with
      | error e q =>
        refine ⟨m, ⟨e, m.originOf effect, frames, q⟩, .refl, ?_, rfl⟩
        unfold Moment.turn
        rw [hmove, hplan, Moment.follow, heffect]
      | ok insertion q =>
        cases insertion with
        | none =>
          refine Relation.ReflTransGen.single ?_
          show m.turn s (some s.limit) = _
          unfold Moment.turn
          rw [hmove, hplan, Moment.follow, heffect]
        | some insertion =>
          have hopens : m.move s = .opens insertion ctx ⟨⟨t, rest⟩, frames, q⟩ := by
            rw [hmove, hplan, Moment.follow, heffect]
          have hrun := tracks_runInsertion hinner hopens hdepth
          exact hrun

/-- Walks follow templates if they follow those that may be rendered inside. -/
theorem tracksTemplates_of_lower {depth : Nat}
    (hinner : ∀ d, depth = d + 1 → TracksTemplates s d) : TracksTemplates s depth := by
  intro t ctx frames p hdepth
  rw [Render.runTemplate_eq_runAll, Render.runAll_eq_runAgenda]
  have hinstr : ∀ entry ∈ Agenda.ofBody ctx t.program, ∀ rest p,
      Tracks s frames (Render.runInstr s (Render.nestedAt s depth) t entry.1 entry.2 p)
        ⟨⟨t, entry :: rest⟩, frames, p⟩ fun q => ⟨⟨t, rest⟩, frames, q⟩ :=
    fun entry _ => tracks_runInstr hinner hdepth t entry.1 entry.2
  have hrun := tracks_runAgenda hinstr [] p
  rwa [List.append_nil] at hrun

/-- A walk follows a template, to every depth. -/
theorem tracks_runTemplate (s : Setting σ) (depth : Nat) : TracksTemplates s depth := by
  induction depth with
  | zero => exact tracksTemplates_of_lower fun d hd => by omega
  | succ depth ih => exact tracksTemplates_of_lower fun d hd => by rwa [← Nat.succ.inj hd]

/-- A walk renders a template: it comes to the same outcome in the end. -/
theorem exists_walk_render (s : Setting σ) (t : Template) (view : Value) (p : Progress σ) :
    ∃ last, Walk s (some s.limit) (.start t view p) last ∧
      (last.turn s (some s.limit)).outcome? = some (t.render s view p) := by
  have htracks := tracks_runTemplate s s.limit t (Context.ofView view) [] p (Nat.zero_add _)
  unfold Template.render
  cases hrun : Render.runTemplate s s.limit t (Context.ofView view) p with
  | ok u q =>
    rw [hrun] at htracks
    exact ⟨_, htracks, rfl⟩
  | error e q =>
    rw [hrun] at htracks
    obtain ⟨last, b, hwalk, hlast, hb⟩ := htracks
    refine ⟨last, hwalk, ?_⟩
    rw [hlast, Turn.outcome?, hb, settle]

/-- Wherever a walk comes to an outcome, it is that of the rendering. -/
theorem render_eq_of_outcome? {t : Template} {view : Value} {p : Progress σ} {m : Moment σ}
    {r : EStateM.Result Error (Progress σ) Unit}
    (hwalk : Walk s (some s.limit) (.start t view p) m)
    (houtcome : (m.turn s (some s.limit)).outcome? = some r) : t.render s view p = r := by
  obtain ⟨last, hlast, hrender⟩ := exists_walk_render s t view p
  have hsome : (m.turn s (some s.limit)).outcome? ≠ none := by
    rw [houtcome]
    simp
  -- Both moments are last ones, so they are the same.
  rcases Relation.ReflTransGen.cases_head (hwalk.to_last hsome hlast) with rfl | ⟨next, hnext, -⟩
  · rw [houtcome] at hrender
    exact (Option.some.inj hrender).symm
  · rw [hnext] at hrender
    cases hrender

/-- A rendering that fails has come to a moment that breaks down. -/
theorem exists_breakdown_of_render {t : Template} {view : Value} {p q : Progress σ} {e : Error}
    (h : t.render s view p = .error e q) :
    ∃ last b, Walk s (some s.limit) (.start t view p) last ∧
      last.turn s (some s.limit) = .fails b ∧ b.outcome = .error e q := by
  obtain ⟨last, hwalk, houtcome⟩ := exists_walk_render s t view p
  rw [h] at houtcome
  cases hturn : last.turn s (some s.limit) with
  | ends q' =>
    rw [hturn] at houtcome
    cases houtcome
  | goes m =>
    rw [hturn] at houtcome
    cases houtcome
  | fails b =>
    rw [hturn] at houtcome
    exact ⟨last, b, hwalk, hturn, Option.some.inj houtcome⟩

end Stepwise

end Mustache
