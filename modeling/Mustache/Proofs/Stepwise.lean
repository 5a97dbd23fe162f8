import Mathlib.Logic.Relation
import Mustache.Proofs.Congruence

/-!
# Rendering step by step

A rendering can be followed step by step.  At each moment one template is being
read, and the templates around it wait, each with what is left of it.  A turn
carries out the next instruction or, at the end of a template, goes back to the
template around it.  So it can be seen at each moment how deep templates are
nested, and turns can be taken without any limit on this as well.

Main results:

- Theorem `Moment.turn_cases`: a turn opens or closes one template at most, and
  opens one only below the bound.
- Theorem `Walk.nesting_le`: under a bound, no moment is nested deeper.
- Theorem `Moment.turn_of_turn_unbounded`: without a bound, turns are the same up to the
  moment at which the bound is reached.
-/

namespace Mustache

variable {σ : Type}

/-- Writing fails for want of a device only. -/
theorem Render.exists_device_of_emitAll {pieces : List (List Char)} {p q : Progress σ} {e : Error}
    (h : emitAll pieces p = .error e q) : ∃ reason, e = .device reason := by
  induction pieces generalizing p with
  | nil => cases h
  | cons piece pieces ih =>
    change EStateM.bind (emit piece) _ p = _ at h
    unfold EStateM.bind emit at h
    cases hrefusal : p.sink.refusal? piece with
    | none =>
      rw [hrefusal] at h
      exact ih h
    | some reason =>
      rw [hrefusal] at h
      cases h
      exact ⟨reason, rfl⟩

namespace Stepwise

/-! ## Moments -/

/-- A template that is being read, and what is left of it. -/
structure Page where
  template : Template
  agenda : Agenda

/-- A template of which nothing is read yet. -/
def Page.first (t : Template) (ctx : Context) : Page :=
  ⟨t, .ofBody ctx t.program⟩

/-- How a template has come to be read inside another one. -/
inductive Entry where
  /-- A partial of this name, with the source that was compiled. -/
  | inclusion (name source : String)
  /-- The text of a lambda.  If its output is captured, the sink that has been put aside is kept
  here, with the escaping under which the output goes there. -/
  | expansion (aside : Option (Escaping × Sink))

/-- A template that waits for one inside it. -/
structure Frame where
  entry : Entry
  outer : Page

/-- A moment of a rendering: the template that is being read, and those around it from the inside
outwards. -/
structure Moment (σ : Type) where
  page : Page
  frames : List Frame
  progress : Progress σ

/-- How deep the template that is being read is nested. -/
def Moment.nesting (m : Moment σ) : Nat :=
  m.frames.length

/-- The beginning of a rendering. -/
def Moment.start (t : Template) (view : Value) (p : Progress σ) : Moment σ :=
  ⟨.first t (Context.ofView view), [], p⟩

/-! ## Errors -/

/-- The kind of text to which the place of an error belongs. -/
inductive Origin where
  | template
  | inclusion (name : String)
  | expansion
deriving DecidableEq, Repr

/-- What kind of text has come to be read. -/
def Entry.origin : Entry → Origin
  | .inclusion name _ => .inclusion name
  | .expansion _ => .expansion

/-- What kind of text is being read. -/
def Moment.origin (m : Moment σ) : Origin :=
  match m.frames with
  | [] => .template
  | f :: _ => f.entry.origin

/-- An error, before it has passed through the templates around it. -/
structure Breakdown (σ : Type) where
  error : Error
  origin : Origin
  frames : List Frame
  progress : Progress σ

/-- An error passes outwards through the templates around it.  Each partial is named if the error
points into its source, and output that was being captured is dropped. -/
def settle : List Frame → Error → Progress σ → EStateM.Result Error (Progress σ) Unit
  | [], e, p => .error e p
  | ⟨.inclusion name source, _⟩ :: frames, e, p => settle frames (e.blameOwner name source) p
  | ⟨.expansion none, _⟩ :: frames, e, p => settle frames e p
  | ⟨.expansion (some (_, sink)), _⟩ :: frames, e, p => settle frames e { p with sink := sink }

/-- The outcome of a rendering that breaks down. -/
def Breakdown.outcome (b : Breakdown σ) : EStateM.Result Error (Progress σ) Unit :=
  settle b.frames b.error b.progress

/-- The name that an error with a place in a source gets in a frame: that of the partial, if it has
the same source. -/
def Frame.owner? (source : String) (f : Frame) : Option String :=
  match f.entry with
  | .inclusion name own => if source = own then some name else none
  | .expansion _ => none

/-- A finding that has passed through the templates around it.  It is named after the innermost
partial that has the source into which it points, unless it is named already. -/
def named (frames : List Frame) (finding : Finding) : Finding :=
  { finding with
    inPartial := finding.inPartial.or (frames.findSome? (Frame.owner? finding.source)) }

/-- Leaving a partial, an error is named if it points into the source of the partial. -/
theorem mapFinding_named_blameOwner (name own : String) (outer : Page) (frames : List Frame)
    (e : Error) : (e.blameOwner name own).mapFinding (named frames) =
      e.mapFinding (named (⟨.inclusion name own, outer⟩ :: frames)) := by
  cases e with
  | flawed finding =>
    rw [Error.blameOwner]
    by_cases hown : finding.source = own
    · rw [if_pos hown]
      cases hname : finding.inPartial <;>
        simp [Error.blame, Error.mapFinding, named, Frame.owner?, hown, hname]
    · rw [if_neg hown]
      simp [Error.mapFinding, named, Frame.owner?, hown]
  | _ => rfl

/-- On its way outwards, nothing of an error changes but the name of its finding. -/
theorem exists_settle (frames : List Frame) (e : Error) (p : Progress σ) :
    ∃ q, settle frames e p = .error (e.mapFinding (named frames)) q := by
  induction frames generalizing e p with
  | nil =>
    refine ⟨p, ?_⟩
    cases e <;> simp [settle, Error.mapFinding, named]
  | cons f frames ih =>
    obtain ⟨entry, outer⟩ := f
    cases entry with
    | inclusion name own =>
      rw [settle, ← mapFinding_named_blameOwner]
      exact ih (e.blameOwner name own) p
    | expansion aside =>
      cases aside with
      | none => exact ih e p
      | some aside => exact ih e _

/-- An error keeps its kind on its way outwards. -/
theorem kind_of_settle {frames : List Frame} {e e' : Error} {p q : Progress σ}
    (h : settle frames e p = .error e' q) : e'.kind = e.kind := by
  obtain ⟨q', hq'⟩ := exists_settle frames e p
  rw [hq'] at h
  cases h
  cases e <;> rfl

/-! ## Turns -/

/-- What comes of a moment before any bound is looked at: the rendering is over, breaks down, goes
on with another moment, or is to go on with a template inside the one that is being read. -/
inductive Move (σ : Type) where
  | ends (p : Progress σ)
  | fails (b : Breakdown σ)
  | goes (m : Moment σ)
  | opens (insertion : Insertion) (ctx : Context) (m : Moment σ)

/-- The moment with which a rendering goes on, inside another template or not. -/
def Move.next? : Move σ → Option (Moment σ)
  | .ends _ | .fails _ => none
  | .goes m | .opens _ _ m => some m

/-- What comes of a moment. -/
inductive Turn (σ : Type) where
  | ends (p : Progress σ)
  | fails (b : Breakdown σ)
  | goes (m : Moment σ)

/-- The kind of text into which an error of an effect points. -/
def Moment.originOf (m : Moment σ) : Effect → Origin
  | .load name _ => .inclusion name
  | _ => m.origin

/-- Carries out a plan, after which the rest of the template is left. -/
def Moment.follow (s : Setting σ) (m : Moment σ) (ctx : Context) (rest : Agenda) :
    Plan → Move σ
  | .body agenda => .goes { m with page := ⟨m.page.template, agenda ++ rest⟩ }
  | .effect effect =>
    match Render.perform s effect m.progress with
    | .error e p => .fails ⟨e, m.originOf effect, m.frames, p⟩
    | .ok none p => .goes ⟨⟨m.page.template, rest⟩, m.frames, p⟩
    | .ok (some insertion) p => .opens insertion ctx ⟨⟨m.page.template, rest⟩, m.frames, p⟩

/-- Goes back to the template that waits in a frame. -/
def Frame.resume (f : Frame) (frames : List Frame) (p : Progress σ) : Move σ :=
  match f.entry with
  | .inclusion _ _ | .expansion none => .goes ⟨f.outer, frames, p⟩
  | .expansion (some (escaping, sink)) =>
    match Render.emitAll (Render.textPieces escaping p.sink.text) { p with sink := sink } with
    | .ok _ q => .goes ⟨f.outer, frames, q⟩
    | .error e q => .fails ⟨e, .expansion, frames, q⟩

/-- What comes of a moment before any bound is looked at. -/
def Moment.move (s : Setting σ) (m : Moment σ) : Move σ :=
  match m.page.agenda, m.frames with
  | [], [] => .ends m.progress
  | [], f :: frames => f.resume frames m.progress
  | (ctx, i) :: rest, _ => m.follow s ctx rest (i.plan m.page.template ctx)

/-- The sink that the text of a lambda is written to first, and what is put aside for this. -/
def setAside (capture : Option Escaping) (sink : Sink) : Sink × Option (Escaping × Sink) :=
  match capture with
  | none => (sink, none)
  | some escaping => (.empty, some (escaping, sink))

/-- Goes on with a template inside the one that is being read. -/
def Moment.enter (m : Moment σ) (ctx : Context) : Insertion → Turn σ
  | .inclusion name inner =>
    .goes ⟨.first inner ctx, ⟨.inclusion name inner.source, m.page⟩ :: m.frames, m.progress⟩
  | .expansion capture text =>
    let events := m.progress.events ++ [.expandingLambda (Event.sizeOf text)]
    match Template.compile m.page.template.live text with
    | .error e => .fails ⟨e, .expansion, m.frames, { m.progress with events := events }⟩
    | .ok inner =>
      let (sink, aside) := setAside capture m.progress.sink
      .goes ⟨.first inner ctx, ⟨.expansion aside, m.page⟩ :: m.frames,
        { m.progress with events := events, sink := sink }⟩

/-- The bound on nested templates, if there is one and it is reached. -/
def reached? (bound : Option Nat) (nesting : Nat) : Option Nat :=
  bound.filter (· ≤ nesting)

/-- What comes of a moment under a bound on nested templates, if there is one. -/
def Moment.turn (s : Setting σ) (bound : Option Nat) (m : Moment σ) : Turn σ :=
  match m.move s with
  | .ends p => .ends p
  | .fails b => .fails b
  | .goes m' => .goes m'
  | .opens insertion ctx m' =>
    match reached? bound m'.nesting with
    | some limit => .fails ⟨.includeLimit limit, m'.origin, m'.frames, m'.progress⟩
    | none => m'.enter ctx insertion

/-- Going from a moment to a later one by turns. -/
abbrev Walk (s : Setting σ) (bound : Option Nat) : Moment σ → Moment σ → Prop :=
  Relation.ReflTransGen fun m m' => m.turn s bound = .goes m'

/-- The outcome to which a last turn comes. -/
def Turn.outcome? : Turn σ → Option (EStateM.Result Error (Progress σ) Unit)
  | .ends p => some (.ok () p)
  | .fails b => some b.outcome
  | .goes _ => none

/-- The breakdown to which a last turn comes, if it comes to one. -/
def Turn.breakdown? : Turn σ → Option (Breakdown σ)
  | .fails b => some b
  | .ends _ | .goes _ => none

theorem Turn.breakdown?_eq_some_iff {turn : Turn σ} {b : Breakdown σ} :
    turn.breakdown? = some b ↔ turn = .fails b := by
  cases turn <;> simp [breakdown?]

/-- The moment after some turns, or the last one if there are not as many. -/
def Moment.after (s : Setting σ) (bound : Option Nat) : Nat → Moment σ → Moment σ
  | 0, m => m
  | n + 1, m =>
    match m.turn s bound with
    | .goes m' => m'.after s bound n
    | _ => m

/-- Taking turns is a walk. -/
theorem walk_after (s : Setting σ) (bound : Option Nat) (n : Nat) (m : Moment σ) :
    Walk s bound m (m.after s bound n) := by
  induction n generalizing m with
  | zero => exact .refl
  | succ n ih =>
    rw [Moment.after]
    cases hturn : m.turn s bound with
    | goes m' => exact .head hturn (ih m')
    | ends p => exact .refl
    | fails b => exact .refl

/-! ## Bounds -/

/-- A bound that is reached is not above the nesting. -/
theorem reached?_eq_some_iff {bound : Option Nat} {nesting limit : Nat} :
    reached? bound nesting = some limit ↔ bound = some limit ∧ limit ≤ nesting := by
  simp [reached?, Option.filter_eq_some_iff]

theorem reached?_some_eq_none_iff {limit nesting : Nat} :
    reached? (some limit) nesting = none ↔ nesting < limit := by
  simp [reached?, Option.filter_eq_none_iff]

/-! ## What a turn does to the templates around -/

variable {s : Setting σ} {m m' : Moment σ} {insertion : Insertion} {ctx : Context}

/-- Going back to a template that waits closes its frame. -/
theorem Frame.eq_of_resume {f : Frame} {frames : List Frame} {p : Progress σ}
    (h : f.resume frames p = .goes m') : m'.frames = frames ∧ m'.page = f.outer := by
  unfold resume at h
  split at h
  · cases h
    exact ⟨rfl, rfl⟩
  · cases h
    exact ⟨rfl, rfl⟩
  · split at h
    · cases h
      exact ⟨rfl, rfl⟩
    · cases h

theorem Frame.resume_ne_opens (f : Frame) (frames : List Frame) (p : Progress σ) :
    f.resume frames p ≠ .opens insertion ctx m' := by
  unfold resume
  split
  · simp
  · simp
  · split <;> simp

/-- Following a plan, the template stays the same, and so do those around. -/
theorem Moment.eq_of_follow {rest : Agenda} {plan : Plan}
    (h : (m.follow s ctx rest plan).next? = some m') :
    m'.frames = m.frames ∧ m'.page.template = m.page.template := by
  cases plan with
  | body agenda =>
    cases h
    exact ⟨rfl, rfl⟩
  | effect effect =>
    unfold follow at h
    dsimp only at h
    split at h
    · cases h
    · cases h
      exact ⟨rfl, rfl⟩
    · cases h
      exact ⟨rfl, rfl⟩

/-- Before a template is opened, the one that is being read stays the same, and so do those
around. -/
theorem Moment.eq_of_move_opens (h : m.move s = .opens insertion ctx m') :
    m'.frames = m.frames ∧ m'.page.template = m.page.template := by
  unfold move at h
  split at h
  · cases h
  · exact absurd h (Frame.resume_ne_opens _ _ _)
  · exact eq_of_follow (congrArg Move.next? h)

theorem Moment.nesting_of_move_opens (h : m.move s = .opens insertion ctx m') :
    m'.nesting = m.nesting := by
  rw [nesting, (eq_of_move_opens h).1, nesting]

/-- As long as no template is opened, the same one is read, or the one around it again. -/
theorem Moment.eq_of_move_goes (h : m.move s = .goes m') :
    (m'.frames = m.frames ∧ m'.page.template = m.page.template) ∨
      ∃ f, m.frames = f :: m'.frames ∧ m'.page = f.outer := by
  unfold move at h
  split at h
  · cases h
  · rename_i f frames _ hframes
    obtain ⟨hrest, hpage⟩ := Frame.eq_of_resume h
    exact .inr ⟨f, by rw [hframes, hrest], hpage⟩
  · exact .inl (eq_of_follow (congrArg Move.next? h))

/-- The source of a template that is to be rendered. -/
def sourceOf : Insertion → String
  | .inclusion _ inner => inner.source
  | .expansion _ text => text

/-- How a template that is to be rendered comes to be read. -/
def entryOf (sink : Sink) : Insertion → Entry
  | .inclusion name inner => .inclusion name inner.source
  | .expansion capture _ => .expansion (setAside capture sink).2

/-- Going on inside a template puts a frame around it. -/
theorem Moment.eq_of_enter (h : m.enter ctx insertion = .goes m') :
    m'.frames = ⟨entryOf m.progress.sink insertion, m.page⟩ :: m.frames ∧
      m'.page.template.source = sourceOf insertion := by
  cases insertion with
  | inclusion name inner =>
    cases h
    exact ⟨rfl, rfl⟩
  | expansion capture text =>
    unfold enter at h
    dsimp only at h
    split at h
    · cases h
    · rename_i inner hcompile
      cases h
      exact ⟨rfl, Template.source_of_compile hcompile⟩

/-- A turn goes on in a template, or goes back to the one around it, or opens one inside it.  It
opens one only below the bound. -/
theorem Moment.turn_cases {bound : Option Nat} (h : m.turn s bound = .goes m') :
    (m'.frames = m.frames ∧ m'.page.template = m.page.template) ∨
      (∃ f, m.frames = f :: m'.frames ∧ m'.page = f.outer) ∨
      ∃ insertion ctx k, m.move s = .opens insertion ctx k ∧ k.enter ctx insertion = .goes m' ∧
        reached? bound m.nesting = none := by
  unfold turn at h
  split at h
  · cases h
  · cases h
  · rename_i next hmove
    cases h
    rcases eq_of_move_goes hmove with hsame | hclosed
    · exact .inl hsame
    · exact .inr (.inl hclosed)
  · rename_i insertion ctx next hmove
    split at h
    · cases h
    · rename_i hbound
      rw [nesting_of_move_opens hmove] at hbound
      exact .inr (.inr ⟨insertion, ctx, next, hmove, h, hbound⟩)

/-! ## Where a template is opened, and where a rendering breaks down -/

/-- A template is opened by the effect of an instruction. -/
theorem Moment.exists_of_move_opens (h : m.move s = .opens insertion ctx m') :
    ∃ i rest effect q, m.page.agenda = (ctx, i) :: rest ∧
      i.plan m.page.template ctx = .effect effect ∧
      Render.perform s effect m.progress = .ok (some insertion) q := by
  unfold move at h
  split at h
  · cases h
  · exact absurd h (Frame.resume_ne_opens _ _ _)
  · rename_i ctx' i rest hagenda
    cases hplan : i.plan m.page.template ctx' with
    | body agenda =>
      rw [hplan] at h
      cases h
    | effect effect =>
      rw [hplan, follow] at h
      split at h
      · cases h
      · cases h
      · rename_i found q heffect
        cases h
        exact ⟨i, rest, effect, q, hagenda, hplan, heffect⟩

/-- Before any bound is looked at, a rendering breaks down where captured output is written to a
device or in the effect of an instruction. -/
theorem Moment.move_fails_cases {b : Breakdown σ} (h : m.move s = .fails b) :
    (∃ reason, b.error = .device reason) ∨
      ∃ (ctx : Context) (i : Instr) (effect : Effect), i.plan m.page.template ctx = .effect effect ∧
        Render.perform s effect m.progress = .error b.error b.progress ∧
        b.origin = m.originOf effect ∧ b.frames = m.frames := by
  unfold move at h
  split at h
  · cases h
  · unfold Frame.resume at h
    split at h
    · cases h
    · cases h
    · split at h
      · cases h
      · rename_i hwrite
        cases h
        exact .inl (Render.exists_device_of_emitAll hwrite)
  · rename_i ctx i rest _
    cases hplan : i.plan m.page.template ctx with
    | body agenda =>
      rw [hplan] at h
      cases h
    | effect effect =>
      rw [hplan, follow] at h
      split at h
      · rename_i heffect
        cases h
        exact .inr ⟨ctx, i, effect, hplan, heffect, rfl, rfl⟩
      · cases h
      · cases h

/-- Where a template is opened, a rendering breaks down if the text of a lambda does not compile. -/
theorem Moment.exists_of_enter_fails {b : Breakdown σ} (h : m.enter ctx insertion = .fails b) :
    Template.compile m.page.template.live (sourceOf insertion) = .error b.error ∧
      (entryOf m.progress.sink insertion).origin = .expansion ∧ b.origin = .expansion ∧
      b.frames = m.frames := by
  cases insertion with
  | inclusion name inner => cases h
  | expansion capture text =>
    unfold enter at h
    dsimp only at h
    split at h
    · rename_i hcompile
      cases h
      exact ⟨hcompile, rfl, rfl, rfl⟩
    · cases h

/-- Under a bound, a rendering breaks down as before, or at the bound, or where a template is
opened. -/
theorem Moment.turn_fails_cases {bound : Option Nat} {b : Breakdown σ}
    (h : m.turn s bound = .fails b) :
    m.move s = .fails b ∨
      ∃ insertion ctx k, m.move s = .opens insertion ctx k ∧
        ((∃ limit, reached? bound m.nesting = some limit ∧ b.error = .includeLimit limit) ∨
          k.enter ctx insertion = .fails b) := by
  unfold turn at h
  split at h
  · cases h
  · rename_i hmove
    cases h
    exact .inl hmove
  · cases h
  · rename_i insertion ctx next hmove
    refine .inr ⟨insertion, ctx, next, hmove, ?_⟩
    have hnesting := nesting_of_move_opens hmove
    split at h
    · rename_i limit hreached
      cases h
      rw [hnesting] at hreached
      exact .inl ⟨limit, hreached, rfl⟩
    · exact .inr h

/-! ## Nesting under a bound -/

/-- Under a bound, a turn does not go deeper than the bound. -/
theorem Moment.nesting_le_of_turn {limit : Nat} (h : m.turn s (some limit) = .goes m')
    (hm : m.nesting ≤ limit) : m'.nesting ≤ limit := by
  unfold nesting at hm ⊢
  rcases turn_cases h with ⟨hsame, -⟩ | ⟨f, hclosed, -⟩ | ⟨insertion, ctx, k, hmove, henter, hbound⟩
  · rwa [hsame]
  · rw [hclosed, List.length_cons] at hm
    omega
  · have hlt : m.frames.length < limit := reached?_some_eq_none_iff.1 hbound
    obtain ⟨hopened, -⟩ := eq_of_enter henter
    obtain ⟨hframes, -⟩ := eq_of_move_opens hmove
    rw [hopened, List.length_cons, hframes]
    omega

/-- Under a bound, no moment is nested deeper. -/
theorem Walk.nesting_le {limit : Nat} (h : Walk s (some limit) m m') (hm : m.nesting ≤ limit) :
    m'.nesting ≤ limit := by
  induction h with
  | refl => exact hm
  | tail _ hturn ih => exact Moment.nesting_le_of_turn hturn ih

/-! ## Turns without a bound -/

/-- The next instruction leaves a template that is to be opened. -/
def Moment.Opens (s : Setting σ) (m : Moment σ) : Prop :=
  ∃ insertion ctx m', m.move s = .opens insertion ctx m'

/-- Where a template is to be opened and the bound is reached, a rendering stops. -/
theorem Moment.Opens.turn_eq_fails (h : m.Opens s) {limit : Nat} (hlimit : limit ≤ m.nesting) :
    ∃ b, m.turn s (some limit) = .fails b ∧ b.error = .includeLimit limit := by
  obtain ⟨insertion, ctx, next, hmove⟩ := h
  have hnesting := nesting_of_move_opens hmove
  have hreached : reached? (some limit) next.nesting = some limit :=
    reached?_eq_some_iff.2 ⟨rfl, by rwa [hnesting]⟩
  unfold turn
  rw [hmove]
  dsimp only
  rw [hreached]
  exact ⟨_, rfl, rfl⟩

/-- Under a bound nothing is done that is not done without it. -/
theorem Moment.turn_unbounded_of_turn {limit : Nat} (h : m.turn s (some limit) = .goes m') :
    m.turn s none = .goes m' := by
  unfold turn at h ⊢
  split at h
  · cases h
  · cases h
  · exact h
  · split at h
    · cases h
    · exact h

/-- Without a bound, turns are the same up to the moment at which the bound is reached. -/
theorem Moment.turn_of_turn_unbounded (h : m.turn s none = .goes m') (limit : Nat) :
    m.turn s (some limit) = .goes m' ∨ m.Opens s ∧ limit ≤ m.nesting := by
  unfold turn at h ⊢
  split at h
  · cases h
  · cases h
  · exact .inl h
  · rename_i insertion ctx next hmove
    have hnesting := nesting_of_move_opens hmove
    cases hreached : reached? (some limit) next.nesting with
    | none => exact .inl h
    | some other =>
      obtain ⟨hsame, hle⟩ := reached?_eq_some_iff.1 hreached
      cases hsame
      exact .inr ⟨⟨insertion, ctx, next, hmove⟩, by rwa [← hnesting]⟩

/-- A walk under a bound is one without it. -/
theorem Walk.unbounded {limit : Nat} (h : Walk s (some limit) m m') : Walk s none m m' :=
  Relation.ReflTransGen.mono (fun _ _ => Moment.turn_unbounded_of_turn) _ _ h

/-- A walk without a bound is one under the bound, or it passes the moment at which the bound stops
it. -/
theorem Walk.bounded_or_stopped (h : Walk s none m m') (limit : Nat) :
    Walk s (some limit) m m' ∨
      ∃ k, Walk s (some limit) m k ∧ k.Opens s ∧ limit ≤ k.nesting := by
  induction h with
  | refl => exact .inl .refl
  | tail _ hturn ih =>
    rcases ih with hwalk | hstopped
    · rcases Moment.turn_of_turn_unbounded hturn limit with hturn | hstops
      · exact .inl (hwalk.tail hturn)
      · exact .inr ⟨_, hwalk, hstops⟩
    · exact .inr hstopped

/-! ## The end of a walk -/

/-- A moment with an outcome is the last one: every walk that starts where a walk to it starts leads
to it in the end. -/
theorem Walk.to_last {bound : Option Nat} {last : Moment σ} (hlast : Walk s bound m last)
    (houtcome : (last.turn s bound).outcome? ≠ none) (h : Walk s bound m m') :
    Walk s bound m' last := by
  have hunique : Relator.RightUnique fun m m' : Moment σ => m.turn s bound = .goes m' := by
    intro a b c hb hc
    rw [hb] at hc
    exact Turn.goes.inj hc
  rcases Relation.ReflTransGen.total_of_right_unique hunique h hlast with hwalk | hwalk
  · exact hwalk
  · rcases Relation.ReflTransGen.cases_head hwalk with rfl | ⟨next, hturn, -⟩
    · exact .refl
    · rw [hturn] at houtcome
      exact absurd rfl houtcome

/-- Where a walk leads to a moment with an outcome, none goes on forever. -/
theorem Walk.acc {bound : Option Nat} {last : Moment σ} (hlast : Walk s bound m last)
    (houtcome : (last.turn s bound).outcome? ≠ none) :
    Acc (fun later earlier : Moment σ => earlier.turn s bound = .goes later) m := by
  induction hlast using Relation.ReflTransGen.head_induction_on with
  | refl =>
    refine ⟨_, fun later hturn => ?_⟩
    rw [hturn] at houtcome
    exact absurd rfl houtcome
  | head hturn _ ih =>
    refine ⟨_, fun later hturn' => ?_⟩
    rw [hturn] at hturn'
    cases hturn'
    exact ih

end Stepwise

end Mustache
