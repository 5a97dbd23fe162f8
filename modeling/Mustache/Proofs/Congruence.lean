import Mustache.Proofs.Plan

/-!
# Relations that programs respect

A relation between parts of renderings that holds of every effect, and that is
kept when parts are put in a row, holds of whole templates: of two runs of one
program in settings that are alike, or under limits that differ.  The induction
over programs and over the depth of nested templates is done here once.

Main results:

- Theorem `Congruence.runInstr`: an instruction is related to itself.
- Theorem `Congruence.runTemplate`: so is a template, under every pair of depths
  that differ by a constant.
-/

namespace Mustache

/-! ## Findings of errors -/

/-- Changes the finding of an error, if it is one of a template. -/
def Error.mapFinding (g : Finding → Finding) : Error → Error
  | flawed finding => flawed (g finding)
  | e => e

/-- Naming a partial concerns findings only. -/
theorem Error.exists_blame_eq_mapFinding (name : String) : ∃ g, blame name = mapFinding g := by
  refine ⟨fun finding => { finding with inPartial := some (finding.inPartial.getD name) }, ?_⟩
  funext e
  cases e <;> rfl

/-- Naming the partial of a source concerns findings only. -/
theorem Error.exists_blameOwner_eq_mapFinding (name source : String) :
    ∃ g, blameOwner name source = mapFinding g := by
  refine ⟨fun finding => if finding.source = source then
    { finding with inPartial := some (finding.inPartial.getD name) } else finding, ?_⟩
  funext e
  cases e with
  | flawed finding =>
    rw [blameOwner, mapFinding]
    split <;> rfl
  | _ => rfl

/-- A source that does not compile is reported with a finding. -/
theorem Template.exists_finding_of_compile_error {pair : Delimiters} {source : String} {e : Error}
    (h : compile pair source = .error e) :
    ∃ flaw, e = .flawed ⟨flaw, source, none⟩ := by
  unfold compile at h
  split at h
  · cases h
  · rename_i flaw _
    cases h
    exact ⟨flaw, rfl⟩

namespace Render

variable {σ : Type}

/-! ## Relations between parts -/

/-- A relation between parts of renderings that have results of one type. -/
abbrev PartRelation (σ : Type) :=
  ∀ ⦃α : Type⦄, Render σ α → Render σ α → Prop

/-- A relation that holds of every effect in two settings, and is kept when parts are put in a row,
captured, or have the findings of their errors changed. -/
structure Congruence (s s' : Setting σ) (R : PartRelation σ) : Prop where
  pure : ∀ {α : Type} (a : α), R (Pure.pure a) (Pure.pure a)
  flawed : ∀ {α : Type} (finding : Finding),
    R (MonadExcept.throw (.flawed finding) : Render σ α) (MonadExcept.throw (.flawed finding))
  bind : ∀ {α β : Type} {x y : Render σ α} {f g : α → Render σ β},
    R x y → (∀ a, R (f a) (g a)) → R (x >>= f) (y >>= g)
  emit : ∀ piece : List Char, R (emit piece) (emit piece)
  report : ∀ e : Event, R (report e) (report e)
  ask : ∀ call : Call, R (ask s.host call) (ask s'.host call)
  captured : ∀ {x y : Render σ Unit}, R x y → R (captured x) (captured y)
  mapFinding : ∀ {α : Type} (g : Finding → Finding) {x y : Render σ α}, R x y →
    R (mapError (Error.mapFinding g) x) (mapError (Error.mapFinding g) y)
  load : ∀ name indent : String, R (s.load name indent) (s'.load name indent)

/-- The ways to run a template inside the current one are related, or one of them is missing where
this makes no difference. -/
inductive NestedRelated (s s' : Setting σ) (R : PartRelation σ) :
    Option (Nested σ) → Option (Nested σ) → Prop
  | none (h : ∀ {α : Type}, R (throw (.includeLimit s.limit) : Render σ α)
      (throw (.includeLimit s'.limit))) : NestedRelated s s' R none none
  | exceeded {run' : Nested σ}
      (h : ∀ {α : Type} (y : Render σ α), R (throw (.includeLimit s.limit)) y) :
      NestedRelated s s' R none (some run')
  | some {run run' : Nested σ} (h : ∀ t ctx, R (run t ctx) (run' t ctx)) :
      NestedRelated s s' R (some run) (some run')

/-- What runs a template inside the current one is related to itself, whether the limit still
allows it or not. -/
theorem NestedRelated.enter_bind {s s' : Setting σ} {R : PartRelation σ}
    {nested nested' : Option (Nested σ)} {α : Type} (h : NestedRelated s s' R nested nested')
    {f g : Nested σ → Render σ α}
    (hfg : ∀ run run', (∀ t ctx, R (run t ctx) (run' t ctx)) → R (f run) (g run')) :
    R (enter s nested >>= f) (enter s' nested' >>= g) := by
  cases h with
  | none hlimit => exact hlimit
  | exceeded hlimit => exact hlimit _
  | some hrun => exact hfg _ _ hrun

/-- What runs a template inside the current one to a given depth. -/
def nestedAt (setting : Setting σ) : Nat → Option (Nested σ)
  | 0 => none
  | depth + 1 => some (runTemplate setting depth)

/-- The instructions of a template are run with the depth that is left. -/
theorem runTemplate_eq_runAll (setting : Setting σ) (depth : Nat) (t : Template) (ctx : Context) :
    runTemplate setting depth t ctx =
      runAll setting (nestedAt setting depth) t ctx t.program := by
  cases depth <;> rfl

namespace Congruence

variable {s s' : Setting σ} {R : PartRelation σ} {nested nested' : Option (Nested σ)}

/-! ## Effects -/

theorem emitAll (h : Congruence s s' R) (pieces : List (List Char)) :
    R (emitAll pieces) (emitAll pieces) := by
  induction pieces with
  | nil => exact h.pure ()
  | cons piece pieces ih => exact h.bind (h.emit piece) fun _ => ih

/-- A loop is related to itself if each of its rounds is. -/
theorem forM {α : Type} (h : Congruence s s' R) {xs : List α} {f g : α → Render σ Unit}
    (hfg : ∀ x ∈ xs, R (f x) (g x)) : R (xs.forM f) (xs.forM g) := by
  induction xs with
  | nil => exact h.pure ()
  | cons x xs ih =>
    refine h.bind (hfg x List.mem_cons_self) fun _ => ?_
    exact ih fun x hx => hfg x (List.mem_cons_of_mem _ hx)

theorem compile (h : Congruence s s' R) (pair : Delimiters) (source : String) :
    R (ofExcept (Template.compile pair source)) (ofExcept (Template.compile pair source)) := by
  cases hcompile : Template.compile pair source with
  | ok t => exact h.pure t
  | error e =>
    obtain ⟨flaw, rfl⟩ := Template.exists_finding_of_compile_error hcompile
    exact h.flawed _

theorem blame {α : Type} (h : Congruence s s' R) (name : String) {x y : Render σ α}
    (hxy : R x y) : R (mapError (Error.blame name) x) (mapError (Error.blame name) y) := by
  obtain ⟨g, hg⟩ := Error.exists_blame_eq_mapFinding name
  rw [hg]
  exact h.mapFinding g hxy

theorem blameOwner {α : Type} (h : Congruence s s' R) (name source : String) {x y : Render σ α}
    (hxy : R x y) :
    R (mapError (Error.blameOwner name source) x) (mapError (Error.blameOwner name source) y) := by
  obtain ⟨g, hg⟩ := Error.exists_blameOwner_eq_mapFinding name source
  rw [hg]
  exact h.mapFinding g hxy

/-! ## Instructions -/

/-- An effect is related to itself. -/
theorem perform (h : Congruence s s' R) (e : Effect) : R (perform s e) (perform s' e) := by
  cases e with
  | write pieces => exact h.bind (h.emitAll pieces) fun _ => h.pure none
  | refuse finding => exact h.flawed finding
  | ask call capture => exact h.bind (h.ask call) fun text => h.pure _
  | load name indent => exact h.bind (h.blame name (h.load name indent)) fun found => h.pure _

/-! ## Templates inside templates -/

theorem runText (h : Congruence s s' R) (hn : NestedRelated s s' R nested nested') (t : Template)
    (ctx : Context) (text : String) :
    R (runText s nested t ctx text) (runText s' nested' t ctx text) := by
  refine hn.enter_bind fun run run' hrun => ?_
  refine h.bind (h.report _) fun _ => ?_
  exact h.bind (h.compile _ _) fun expanded => hrun expanded ctx

/-- A template inside the current one is related to itself. -/
theorem runInsertion? (h : Congruence s s' R) (hn : NestedRelated s s' R nested nested')
    (t : Template) (ctx : Context) (insertion : Option Insertion) :
    R (runInsertion? s nested t ctx insertion) (runInsertion? s' nested' t ctx insertion) := by
  cases insertion with
  | none => exact h.pure ()
  | some insertion =>
    cases insertion with
    | inclusion name inner =>
      exact hn.enter_bind fun run run' hrun => h.blameOwner name inner.source (hrun inner ctx)
    | expansion capture text =>
      cases capture with
      | none => exact h.runText hn t ctx text
      | some escaping =>
        exact h.bind (h.captured (h.runText hn t ctx text)) fun output => h.emitAll _

/-! ## Programs -/

/-- An instruction is related to itself. -/
theorem runInstr (h : Congruence s s' R) (hn : NestedRelated s s' R nested nested') (t : Template)
    (ctx : Context) (i : Instr) :
    R (runInstr s nested t ctx i) (runInstr s' nested' t ctx i) := by
  induction i using Instr.induction_on_body generalizing ctx with
  | step i ih =>
    rw [runInstr_eq_runPlan, runInstr_eq_runPlan]
    cases hplan : i.plan t ctx with
    | body agenda =>
      refine h.forM fun entry hentry => ?_
      exact ih entry.2 (Instr.mem_body_of_plan hplan entry hentry) entry.1
    | effect e =>
      exact h.bind (h.perform e) fun insertion => h.runInsertion? hn t ctx insertion

/-- Instructions in a row are related to themselves. -/
theorem runAll (h : Congruence s s' R) (hn : NestedRelated s s' R nested nested') (t : Template)
    (ctx : Context) (is : List Instr) :
    R (runAll s nested t ctx is) (runAll s' nested' t ctx is) := by
  rw [runAll_eq_runAgenda, runAll_eq_runAgenda]
  exact h.forM fun entry _ => h.runInstr hn t entry.1 entry.2

/-- A template is related to itself under depths that differ by a constant, if this is so where no
template may be nested any more. -/
theorem runTemplate (h : Congruence s s' R) {extra : Nat}
    (hbase : NestedRelated s s' R none (nestedAt s' extra)) (depth : Nat) (t : Template)
    (ctx : Context) :
    R (runTemplate s depth t ctx) (runTemplate s' (extra + depth) t ctx) := by
  rw [runTemplate_eq_runAll, runTemplate_eq_runAll]
  induction depth generalizing t ctx with
  | zero => exact h.runAll hbase t ctx t.program
  | succ depth ih =>
    refine h.runAll (.some fun inner ctx => ?_) t ctx t.program
    have hinner := ih inner ctx
    rwa [← runTemplate_eq_runAll, ← runTemplate_eq_runAll] at hinner

end Congruence

end Render

end Mustache
