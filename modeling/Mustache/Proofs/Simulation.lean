import Mustache.Proofs.Congruence

/-!
# Renderings that go the same way

Two renderings go the same way if they ask the same questions, write the same
output and end with the same result or the same error.  They may differ in what
they report and in the partials that they keep, as long as the kept partials
stay in a given relation.

The relation holds of every effect and passes through sequencing.  What remains
to be shown of two settings is that they load partials the same way.

Main results:

- Theorem `Simulates.bind`: parts that go the same way can be put in a row.
- Theorem `Setting.Alike.congruence`: programs respect the relation.
- Theorem `runTemplate_simulates`: templates go the same way, to every depth.
-/

namespace Mustache

namespace Render

variable {σ α β : Type}

/-! ## Related states -/

/-- A relation between the partials that two renderings keep. -/
abbrev Kept := CompiledPartials → CompiledPartials → Prop

/-- Two renderings have got equally far: their questions and their output are the same, and the
partials that they keep are related. -/
structure Level (K : Kept) (p q : Progress σ) : Prop where
  host : p.host = q.host
  calls : p.calls = q.calls
  sink : p.sink = q.sink
  kept : K p.compiled q.compiled

/-- Two renderings have ended alike. -/
def Alike (K : Kept) :
    EStateM.Result Error (Progress σ) α → EStateM.Result Error (Progress σ) α → Prop
  | .ok a p, .ok b q => a = b ∧ Level K p q
  | .error e p, .error f q => e = f ∧ Level K p q
  | _, _ => False

/-- Renderings that have ended alike have the same result or the same error. -/
theorem Alike.cases {K : Kept} {r s : EStateM.Result Error (Progress σ) α} (h : Alike K r s) :
    (∃ a p q, r = .ok a p ∧ s = .ok a q ∧ Level K p q) ∨
      ∃ e p q, r = .error e p ∧ s = .error e q ∧ Level K p q := by
  cases r with
  | ok a p =>
    cases s with
    | ok b q =>
      obtain ⟨rfl, hlevel⟩ := h
      exact .inl ⟨a, p, q, rfl, rfl, hlevel⟩
    | error f q => exact h.elim
  | error e p =>
    cases s with
    | ok b q => exact h.elim
    | error f q =>
      obtain ⟨rfl, hlevel⟩ := h
      exact .inr ⟨e, p, q, rfl, rfl, hlevel⟩

/-- From states that are level, two parts of a rendering end alike. -/
def Simulates (K : Kept) (x y : Render σ α) : Prop :=
  ∀ p q, Level K p q → Alike K (x p) (y q)

variable {K : Kept}

/-! ## Putting parts together -/

namespace Simulates

theorem pure (a : α) : Simulates (σ := σ) K (Pure.pure a) (Pure.pure a) :=
  fun _ _ h => ⟨rfl, h⟩

theorem throw (e : Error) :
    Simulates (σ := σ) (α := α) K (MonadExcept.throw e) (MonadExcept.throw e) :=
  fun _ _ h => ⟨rfl, h⟩

/-- Parts that go the same way can be put in a row. -/
theorem bind {x y : Render σ α} {f g : α → Render σ β} (hx : Simulates K x y)
    (hf : ∀ a, Simulates K (f a) (g a)) : Simulates K (x >>= f) (y >>= g) := by
  intro p q h
  show Alike K (EStateM.bind x f p) (EStateM.bind y g q)
  unfold EStateM.bind
  rcases (hx p q h).cases with ⟨a, p', q', hp, hq, h'⟩ | ⟨e, p', q', hp, hq, h'⟩
  · rw [hp, hq]
    exact hf a p' q' h'
  · rw [hp, hq]
    exact ⟨rfl, h'⟩

/-! ## Effects -/

/-- Writing goes the same way, since the sinks are the same. -/
theorem emit (piece : List Char) : Simulates (σ := σ) K (emit piece) (emit piece) := by
  intro p q h
  unfold Render.emit
  rw [h.sink]
  split
  · exact ⟨rfl, h.host, h.calls, rfl, h.kept⟩
  · exact ⟨rfl, h.host, h.calls, rfl, h.kept⟩

theorem report (e : Event) : Simulates (σ := σ) K (report e) (report e) :=
  fun _ _ h => ⟨rfl, h.host, h.calls, h.sink, h.kept⟩

/-- Asking goes the same way, since the hosts are in the same state. -/
theorem ask (host : Host σ) (call : Call) : Simulates K (ask host call) (ask host call) := by
  intro p q h
  unfold Render.ask
  rw [h.host, h.calls]
  exact ⟨rfl, rfl, rfl, h.sink, h.kept⟩

/-- A captured text is the same, and the sinks are as they were before. -/
theorem captured {x y : Render σ Unit} (hxy : Simulates K x y) :
    Simulates K (captured x) (captured y) := by
  intro p q h
  have hempty : Level K { p with sink := .empty } { q with sink := .empty } :=
    ⟨h.host, h.calls, rfl, h.kept⟩
  unfold Render.captured
  rcases (hxy _ _ hempty).cases with ⟨a, p', q', hp, hq, h'⟩ | ⟨e, p', q', hp, hq, h'⟩
  · rw [hp, hq]
    exact ⟨by rw [h'.sink], h'.host, h'.calls, h.sink, h'.kept⟩
  · rw [hp, hq]
    exact ⟨rfl, h'.host, h'.calls, h.sink, h'.kept⟩

theorem mapError {x y : Render σ α} (f : Error → Error) (hxy : Simulates K x y) :
    Simulates K (mapError f x) (mapError f y) := by
  intro p q h
  unfold Render.mapError
  rcases (hxy p q h).cases with ⟨a, p', q', hp, hq, h'⟩ | ⟨e, p', q', hp, hq, h'⟩
  · rw [hp, hq]
    exact ⟨rfl, h'⟩
  · rw [hp, hq]
    exact ⟨rfl, h'⟩

end Simulates

/-! ## Programs -/

/-- Two settings are alike if they differ in nothing but how they load partials, and load them
the same way. -/
structure Setting.Alike (K : Kept) (s s' : Setting σ) : Prop where
  limit : s.limit = s'.limit
  host : s.host = s'.host
  load : ∀ name indent, Simulates K (s.load name indent) (s'.load name indent)

/-- Going the same way is a relation that programs respect. -/
theorem Setting.Alike.congruence {s s' : Setting σ} (hs : Setting.Alike K s s') :
    Congruence s s' fun _ => Simulates K where
  pure := .pure
  flawed finding := .throw _
  bind := .bind
  emit := .emit
  report := .report
  ask call := by
    rw [hs.host]
    exact .ask _ call
  captured := .captured
  mapFinding g := .mapError _
  load := hs.load

/-- Templates go the same way in alike settings, to every depth. -/
theorem runTemplate_simulates {s s' : Setting σ} (hs : Setting.Alike K s s') (depth : Nat)
    (t : Template) (ctx : Context) :
    Simulates K (runTemplate s depth t ctx) (runTemplate s' depth t ctx) := by
  have hbase : NestedRelated s s' (fun _ => Simulates K) none (nestedAt s' 0) := by
    refine .none ?_
    rw [hs.limit]
    exact .throw _
  have hrun := hs.congruence.runTemplate hbase depth t ctx
  rwa [Nat.zero_add] at hrun

end Render

end Mustache
