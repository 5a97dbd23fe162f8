import Mustache.Proofs.Caching

/-!
# Headroom under the limit

A rendering that does not stop at the limit on nested templates does not notice
it: under every higher limit it gives the same output or the same error, asks the
same questions in the same order, and leaves the same things compiled.

Main results:

- Theorem `Render.congruence_raise`: programs respect being the same
  unless stopped.
- Theorem `Engine.draw_raise`: drawing a template is the same under a higher limit.
- Theorem `Engine.outcome_of_limit_le`: so is every rendering of an engine.
-/

namespace Mustache

variable {σ α β : Type}

/-- The setting under another limit. -/
def Setting.withLimit (s : Setting σ) (limit : Nat) : Setting σ :=
  { s with limit := limit }

namespace Render

/-! ## Parts that are the same unless one is stopped -/

/-- The second part does what the first one does, unless that one is stopped at its limit. -/
def SameUnlessStopped (x y : Render σ α) : Prop :=
  ∀ p, (∃ limit q, x p = .error (.includeLimit limit) q) ∨ y p = x p

namespace SameUnlessStopped

theorem refl (x : Render σ α) : SameUnlessStopped x x :=
  fun _ => .inr rfl

theorem stopped (limit : Nat) (y : Render σ α) :
    SameUnlessStopped (throw (.includeLimit limit)) y :=
  fun p => .inl ⟨limit, p, rfl⟩

/-- A part that is stopped is not followed by another one. -/
theorem bind {x y : Render σ α} {f g : α → Render σ β} (hxy : SameUnlessStopped x y)
    (hfg : ∀ a, SameUnlessStopped (f a) (g a)) : SameUnlessStopped (x >>= f) (y >>= g) := by
  intro p
  show (∃ limit q, EStateM.bind x f p = .error (.includeLimit limit) q) ∨
    EStateM.bind y g p = EStateM.bind x f p
  unfold EStateM.bind
  rcases hxy p with ⟨limit, q, hx⟩ | hx
  · rw [hx]
    exact .inl ⟨limit, q, rfl⟩
  · rw [hx]
    cases x p with
    | ok a q => exact hfg a q
    | error e q => exact .inr rfl

theorem captured {x y : Render σ Unit} (hxy : SameUnlessStopped x y) :
    SameUnlessStopped (captured x) (captured y) := by
  intro p
  unfold Render.captured
  rcases hxy { p with sink := .empty } with ⟨limit, q, hx⟩ | hx
  · rw [hx]
    exact .inl ⟨limit, _, rfl⟩
  · rw [hx]
    exact .inr rfl

/-- The limit is not the finding of a template. -/
theorem mapFinding (g : Finding → Finding) {x y : Render σ α} (hxy : SameUnlessStopped x y) :
    SameUnlessStopped (mapError (Error.mapFinding g) x) (mapError (Error.mapFinding g) y) := by
  intro p
  unfold mapError
  rcases hxy p with ⟨limit, q, hx⟩ | hx
  · rw [hx]
    exact .inl ⟨limit, q, rfl⟩
  · rw [hx]
    exact .inr rfl

end SameUnlessStopped

/-! ## Programs under two limits -/

/-- Being the same unless stopped is a relation that programs respect under any two limits. -/
theorem congruence_raise (s : Setting σ) (limit limit' : Nat) :
    Congruence (s.withLimit limit) (s.withLimit limit') fun _ => SameUnlessStopped where
  pure a := SameUnlessStopped.refl (pure a)
  flawed finding := SameUnlessStopped.refl (throw (.flawed finding))
  bind := .bind
  emit piece := SameUnlessStopped.refl (emit piece)
  report e := SameUnlessStopped.refl (report e)
  ask call := SameUnlessStopped.refl (ask s.host call)
  captured := .captured
  mapFinding := .mapFinding
  load name indent := SameUnlessStopped.refl (s.load name indent)

/-- A template that is not stopped does the same where others may be nested deeper inside it. -/
theorem runTemplate_raise (s : Setting σ) (limit limit' depth extra : Nat) (t : Template)
    (ctx : Context) :
    SameUnlessStopped (runTemplate (s.withLimit limit) depth t ctx)
      (runTemplate (s.withLimit limit') (extra + depth) t ctx) := by
  have hbase : NestedRelated (s.withLimit limit) (s.withLimit limit')
      (fun _ => SameUnlessStopped) none (nestedAt (s.withLimit limit') extra) := by
    cases extra with
    | zero => exact .none (.stopped _ _)
    | succ extra => exact .exceeded (.stopped _)
  exact (congruence_raise s limit limit').runTemplate hbase depth t ctx

end Render

namespace Engine

/-! ## Engines under two limits -/

/-- The activity with another limit. -/
def Activity.withLimit (a : Activity σ) (limit : Nat) : Activity σ :=
  { a with engine := { a.engine with limit := limit } }

/-- The outcome of an action with another limit. -/
def outcomeWithLimit (limit : Nat) :
    EStateM.Result Error (Activity σ) α → EStateM.Result Error (Activity σ) α
  | .ok result a => .ok result (a.withLimit limit)
  | .error e a => .error e (a.withLimit limit)

/-- The limit has no part in an action. -/
def Steady (x : Action σ α) : Prop :=
  ∀ (a : Activity σ) (limit : Nat), x (a.withLimit limit) = outcomeWithLimit limit (x a)

/-- Under a higher limit, an action that was not stopped has the same outcome. -/
def Raisable (x : Action σ α) : Prop :=
  ∀ (a : Activity σ) (m n : Nat), m ≤ n →
    (∀ e b, x (a.withLimit m) = .error e b → e.kind ≠ .maxIncludeDepth) →
    x (a.withLimit n) = outcomeWithLimit n (x (a.withLimit m))

/-- A steady action may precede one that has the same outcome under a higher limit. -/
theorem Steady.bind {x : Action σ α} {f : α → Action σ β} (hx : Steady x)
    (hf : ∀ result, Raisable (f result)) : Raisable (x >>= f) := by
  intro a m n hmn h
  change ∀ e b, EStateM.bind x f _ = _ → _ at h
  show EStateM.bind x f _ = outcomeWithLimit n (EStateM.bind x f _)
  unfold EStateM.bind at h ⊢
  rw [hx] at h ⊢
  rw [hx]
  cases hxa : x a with
  | ok result b =>
    rw [hxa] at h
    exact hf result b m n hmn h
  | error e b => rfl

theorem Steady.raisable {x : Action σ α} (hx : Steady x) : Raisable x := by
  intro a m n hmn h
  rw [hx, hx]
  cases x a <;> rfl

theorem steady_templateOf (source : String) : Steady (σ := σ) (templateOf source) := by
  intro a limit
  have htemplates : (a.withLimit limit).engine.templates = a.engine.templates := rfl
  have hcompile : (a.withLimit limit).engine.compile source = a.engine.compile source := rfl
  rw [templateOf_apply, templateOf_apply, htemplates, hcompile]
  cases Dictionary.get? a.engine.templates source with
  | some t => rfl
  | none => cases a.engine.compile source <;> rfl

/-- Drawing a template has the same outcome under a higher limit, unless it is stopped. -/
theorem draw_raise (host : Host σ) (t : Template) (view : Value) (sink : Sink) (a : Activity σ)
    {m n : Nat} (hmn : m ≤ n)
    (h : ∀ e reached b, draw host t view sink (a.withLimit m) = .ok (some e, reached) b →
      e.kind ≠ .maxIncludeDepth) :
    draw host t view sink (a.withLimit n) =
      outcomeWithLimit n (draw host t view sink (a.withLimit m)) := by
  obtain ⟨extra, rfl⟩ := Nat.exists_eq_add_of_le' hmn
  have hrun := Render.runTemplate_raise (a.engine.setting host) m (extra + m) m extra t
    (Context.ofView view) (a.begin sink)
  have hrender : ∀ limit, t.render ((a.withLimit limit).engine.setting host) view
      ((a.withLimit limit).begin sink) =
      Render.runTemplate ((a.engine.setting host).withLimit limit) limit t (Context.ofView view)
        (a.begin sink) := fun _ => rfl
  unfold draw at h ⊢
  rw [hrender] at h ⊢
  rw [hrender]
  rcases hrun with ⟨limit, q, hstopped⟩ | hsame
  · rw [hstopped] at h
    exact absurd rfl (h _ _ _ rfl)
  · rw [hsame]
    cases Render.runTemplate ((a.engine.setting host).withLimit m) m t (Context.ofView view)
      (a.begin sink) <;> rfl

theorem raisable_renderTemplate (host : Host σ) (t : Template) (view : Value) :
    Raisable (renderTemplate host t view) := by
  intro a m n hmn h
  rw [renderTemplate_apply] at h ⊢
  rw [renderTemplate_apply]
  have hdraw := draw_raise host t view .empty a hmn fun e reached b hb => by
    rw [hb] at h
    exact h e b rfl
  rw [hdraw]
  cases draw host t view .empty (a.withLimit m) with
  | ok result b =>
    obtain ⟨failure, sink⟩ := result
    cases failure <;> rfl
  | error e b => rfl

theorem raisable_render (host : Host σ) (source : String) (view : Value) :
    Raisable (render host source view) := by
  unfold render
  split
  · exact Steady.raisable fun _ _ => rfl
  · exact (steady_templateOf source).bind fun t => raisable_renderTemplate host t view

theorem raisable_renderWith (host : Host σ) (source : String) (view : Value)
    (partials : Option (List (String × String))) :
    Raisable (renderWith host source view partials) := by
  cases partials with
  | none => exact raisable_render host source view
  | some partials =>
    have hreplace : Steady (σ := σ) (replacePartials partials) := fun _ _ => rfl
    exact hreplace.bind fun _ => raisable_render host source view

/-- Whatever is rendered, a limit that did not stop it may be raised.  Under the higher limit the
outcome is the same: the output or the error, the questions to the host, the state of the host, the
reports, and the engine with all that it has compiled.  This holds of sources, whose partials may be
replaced first, of compiled templates, and of output to every sink. -/
theorem outcome_of_limit_le (host : Host σ) (source : String) (view : Value)
    (partials : Option (List (String × String))) (t : Template) (sink : Sink) (a : Activity σ)
    {m n : Nat} (hmn : m ≤ n) :
    ((∀ e b, renderWith host source view partials (a.withLimit m) = .error e b →
        e.kind ≠ .maxIncludeDepth) →
      renderWith host source view partials (a.withLimit n) =
        outcomeWithLimit n (renderWith host source view partials (a.withLimit m))) ∧
    ((∀ e b, renderTemplate host t view (a.withLimit m) = .error e b →
        e.kind ≠ .maxIncludeDepth) →
      renderTemplate host t view (a.withLimit n) =
        outcomeWithLimit n (renderTemplate host t view (a.withLimit m))) ∧
    ((∀ e reached b, draw host t view sink (a.withLimit m) = .ok (some e, reached) b →
        e.kind ≠ .maxIncludeDepth) →
      draw host t view sink (a.withLimit n) =
        outcomeWithLimit n (draw host t view sink (a.withLimit m))) :=
  ⟨raisable_renderWith host source view partials a m n hmn,
    raisable_renderTemplate host t view a m n hmn, draw_raise host t view sink a hmn⟩

/-- A partial is rendered inside a template, as deep as the limit allows and with room to spare. -/
theorem outcome_of_limit_le_inclusion :
    let host : Host Unit := ⟨fun _ _ s => ("", s)⟩
    let a : Activity Unit :=
      ⟨{ delimiters := .standard, partials := [("p", "x")] }, (), [], []⟩
    let text := renderWith host "[{{>p}}]" (.map []) none
    (∃ b, text (a.withLimit 1) = .ok "[x]" b) ∧
      text (a.withLimit 2) = outcomeWithLimit 2 (text (a.withLimit 1)) := by
  intro host a text
  have htext : (match text (a.withLimit 1) with
      | .ok s _ => s.toList | .error _ _ => []) = ['[', 'x', ']'] := by decide +kernel
  cases hrun : text (a.withLimit 1) with
  | error e b =>
    rw [hrun] at htext
    cases htext
  | ok s b =>
    rw [hrun] at htext
    have hnotStopped : ∀ e b, text (a.withLimit 1) = .error e b → e.kind ≠ .maxIncludeDepth := by
      intro e b h
      rw [hrun] at h
      cases h
    have hs : s = "[x]" := by
      rw [← String.ofList_toList (s := s), show s.toList = ['[', 'x', ']'] from htext]
    have hraised : text (a.withLimit 2) = outcomeWithLimit 2 (text (a.withLimit 1)) :=
      (outcome_of_limit_le host "[{{>p}}]" (.map []) none ⟨"", .standard, []⟩ .empty a
        (by decide)).1 hnotStopped
    rw [hrun] at hraised
    exact ⟨⟨b, by rw [hs]⟩, hraised⟩

end Engine

end Mustache
