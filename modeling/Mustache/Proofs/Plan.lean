import Mustache.Render.Program

/-!
# What an instruction comes to

In a context, an instruction comes to a plan: either the instructions of its body
are carried out, each in its context, or it has an effect of its own.  An effect
writes, asks the host or loads a partial, and may leave another template that is
to be rendered inside the current one.  The limit on nested templates concerns
nothing else.

Main results:

- Theorem `Instr.mem_body_of_plan`: a plan leads to no instructions but those of
  the body.
- Theorem `Render.runInstr_eq_runPlan`: carrying out an instruction is carrying
  out its plan.
-/

namespace Mustache

/-! ## Bodies -/

/-- The instructions inside an instruction. -/
def Instr.body : Instr → List Instr
  | .block _ _ _ body => body
  | _ => []

mutual

/-- What passes from the instructions of a body to the instruction around them holds of every
instruction. -/
theorem Instr.induction_on_body {motive : Instr → Prop}
    (step : ∀ i : Instr, (∀ j ∈ i.body, motive j) → motive i) : ∀ i : Instr, motive i
  | .text _ | .interpolation _ _ | .inclusion _ _ => step _ (by simp [body])
  | .block polarity target raw body =>
    step (.block polarity target raw body) (Instr.forall_of_body step body)

/-- What passes from bodies outwards holds of all instructions in a row. -/
theorem Instr.forall_of_body {motive : Instr → Prop}
    (step : ∀ i : Instr, (∀ j ∈ i.body, motive j) → motive i) :
    ∀ is : List Instr, ∀ i ∈ is, motive i
  | [] => by simp
  | j :: js => by
    intro i hi
    rcases List.mem_cons.1 hi with hij | hi
    · rw [hij]
      exact Instr.induction_on_body step j
    · exact Instr.forall_of_body step js i hi

end

/-! ## Plans -/

/-- Instructions that are still to be carried out, each in its context. -/
abbrev Agenda := List (Context × Instr)

/-- The instructions of a body in one context. -/
def Agenda.ofBody (ctx : Context) (body : List Instr) : Agenda :=
  body.map fun i => (ctx, i)

/-- What an instruction does by itself. -/
inductive Effect where
  | write (pieces : List (List Char))
  /-- The value of a variable has no text. -/
  | refuse (finding : Finding)
  /-- The answer of a lambda is rendered.  Where the lambda stands for a variable, the output is
  captured and written under an escaping. -/
  | ask (call : Call) (capture : Option Escaping)
  | load (name indent : String)

/-- What an instruction comes to in a context. -/
inductive Plan where
  | body (agenda : Agenda)
  | effect (e : Effect)

/-- The effect of a variable that stands for a value. -/
def Effect.ofValue (t : Template) (escaping : Escaping) (target : Reference) (v : Value) :
    Effect :=
  if v.isFalsey then
    .write []
  else
    match v.collection? with
    | some found => .refuse ⟨⟨.notRenderable found, target.name.span⟩, t.source, none⟩
    | none => .write (Render.valuePieces escaping v)

/-- The plan for an instruction of a template. -/
def Instr.plan (t : Template) (ctx : Context) : Instr → Plan
  | .text whole => .effect (.write [whole.text])
  | .interpolation escaping target =>
    match ctx.resolve target with
    | none => .effect (.write [])
    | some (.lambda l) => .effect (.ask (Call.ofLambda l "") (some escaping))
    | some v => .effect (.ofValue t escaping target v)
  | .block .upright target raw body =>
    match ctx.resolve target with
    | none => .body []
    | some (.lambda l) => .effect (.ask (Call.ofLambda l raw.toString) none)
    | some (.list items) => .body (items.flatMap fun item => Agenda.ofBody (ctx.push item) body)
    | some v => if v.isFalsey then .body [] else .body (Agenda.ofBody (ctx.push v) body)
  | .block .inverted target _ body =>
    if (ctx.resolve target).all Value.isFalsey then .body (Agenda.ofBody ctx body) else .body []
  | .inclusion name indent => .effect (.load name indent)

theorem Agenda.mem_of_mem_ofBody {ctx : Context} {body : List Instr} {entry : Context × Instr}
    (h : entry ∈ ofBody ctx body) : entry.2 ∈ body := by
  obtain ⟨i, hi, rfl⟩ := List.mem_map.1 h
  exact hi

/-- A plan leads to no instructions but those of the body. -/
theorem Instr.mem_body_of_plan {t : Template} {ctx : Context} {i : Instr} {agenda : Agenda}
    (h : i.plan t ctx = .body agenda) : ∀ entry ∈ agenda, entry.2 ∈ i.body := by
  intro entry hentry
  cases i with
  | text | inclusion => cases h
  | interpolation escaping target =>
    rw [plan] at h
    split at h <;> cases h
  | block polarity target raw body =>
    cases polarity with
    | upright =>
      rw [plan] at h
      split at h
      · cases h
        cases hentry
      · cases h
      · cases h
        obtain ⟨item, _, hentry⟩ := List.mem_flatMap.1 hentry
        exact Agenda.mem_of_mem_ofBody hentry
      · split at h
        · cases h
          cases hentry
        · cases h
          exact Agenda.mem_of_mem_ofBody hentry
    | inverted =>
      rw [plan] at h
      split at h
      · cases h
        exact Agenda.mem_of_mem_ofBody hentry
      · cases h
        cases hentry

/-! ## Templates inside templates -/

/-- A template that is to be rendered inside the current one. -/
inductive Insertion where
  /-- A partial, which was found under its name. -/
  | inclusion (name : String) (t : Template)
  /-- The text of a lambda, which is captured or not. -/
  | expansion (capture : Option Escaping) (text : String)

/-- What is to be rendered for the answer of a lambda: nothing if it is empty. -/
def Insertion.ofAnswer? (capture : Option Escaping) (text : String) : Option Insertion :=
  if text.isEmpty then none else some (.expansion capture text)

namespace Render

variable {σ : Type}

/-- Has an effect, which may leave a template that is to be rendered. -/
def perform (setting : Setting σ) : Effect → Render σ (Option Insertion)
  | .write pieces => do
    emitAll pieces
    pure none
  | .refuse finding => throw (.flawed finding)
  | .ask call capture => do
    let text ← ask setting.host call
    pure (Insertion.ofAnswer? capture text)
  | .load name indent => do
    let found ← mapError (Error.blame name) (setting.load name indent)
    pure (found.map (Insertion.inclusion name))

/-- Renders the text of a lambda inside the current template. -/
def runText (setting : Setting σ) (nested : Option (Nested σ)) (t : Template) (ctx : Context)
    (text : String) : Render σ Unit := do
  let run ← enter setting nested
  report (.expandingLambda (Event.sizeOf text))
  let expanded ← ofExcept (Template.compile t.live text)
  run expanded ctx

/-- Renders a template inside the current one. -/
def runInsertion (setting : Setting σ) (nested : Option (Nested σ)) (t : Template) (ctx : Context) :
    Insertion → Render σ Unit
  | .inclusion name inner => do
    let run ← enter setting nested
    mapError (Error.blameOwner name inner.source) (run inner ctx)
  | .expansion none text => runText setting nested t ctx text
  | .expansion (some escaping) text => do
    let output ← captured (runText setting nested t ctx text)
    emitAll (textPieces escaping output)

/-- Renders a template inside the current one, if there is one to be rendered. -/
def runInsertion? (setting : Setting σ) (nested : Option (Nested σ)) (t : Template)
    (ctx : Context) : Option Insertion → Render σ Unit
  | none => pure ()
  | some n => runInsertion setting nested t ctx n

/-- Carries out instructions, each in its context. -/
def runAgenda (setting : Setting σ) (nested : Option (Nested σ)) (t : Template)
    (agenda : Agenda) : Render σ Unit :=
  agenda.forM fun entry => runInstr setting nested t entry.1 entry.2

/-- Carries out a plan. -/
def runPlan (setting : Setting σ) (nested : Option (Nested σ)) (t : Template) (ctx : Context) :
    Plan → Render σ Unit
  | .body agenda => runAgenda setting nested t agenda
  | .effect e => perform setting e >>= runInsertion? setting nested t ctx

section Plans

variable (setting : Setting σ) (nested : Option (Nested σ)) (t : Template) (ctx : Context)

/-! ## Agendas -/

theorem runAgenda_append (xs ys : Agenda) :
    runAgenda setting nested t (xs ++ ys) = (do
      runAgenda setting nested t xs
      runAgenda setting nested t ys) :=
  List.forM_append

/-- The instructions of a body are an agenda. -/
theorem runAll_eq_runAgenda (body : List Instr) :
    runAll setting nested t ctx body = runAgenda setting nested t (.ofBody ctx body) := by
  induction body with
  | nil => rfl
  | cons i is ih =>
    rw [runAll, ih]
    rfl

/-- The rounds of a loop are one agenda. -/
theorem forM_runAll_eq_runAgenda (items : List Value) (body : List Instr) :
    (items.forM fun item => runAll setting nested t (ctx.push item) body) =
      runAgenda setting nested t
        (items.flatMap fun item => Agenda.ofBody (ctx.push item) body) := by
  induction items with
  | nil => rfl
  | cons item items ih =>
    rw [List.flatMap_cons, runAgenda_append, ← ih, ← runAll_eq_runAgenda]
    rfl

/-! ## Carrying out an instruction -/

@[simp]
theorem runPlan_write (pieces : List (List Char)) :
    runPlan setting nested t ctx (.effect (.write pieces)) = emitAll pieces := by
  rw [runPlan, perform, bind_assoc]
  exact bind_pure_unit

theorem runPlan_ask (call : Call) (capture : Option Escaping) :
    runPlan setting nested t ctx (.effect (.ask call capture)) =
      ask setting.host call >>= fun text =>
        runInsertion? setting nested t ctx (Insertion.ofAnswer? capture text) := by
  rw [runPlan, perform, bind_assoc]
  simp only [pure_bind]

theorem expand_eq_runInsertion? (text : String) :
    expand setting nested t ctx text =
      runInsertion? setting nested t ctx (Insertion.ofAnswer? none text) := by
  unfold expand Insertion.ofAnswer?
  split <;> rfl

/-- An empty text has one piece, which is empty. -/
theorem emitAll_textPieces_empty (escaping : Escaping) :
    emitAll (σ := σ) (textPieces escaping "") = pure () := by
  cases escaping <;> simp [textPieces, Html.escapePieces, emitAll]

theorem captured_expand_eq_runInsertion? (escaping : Escaping) (text : String) :
    (do
      let output ← captured (expand setting nested t ctx text)
      emitAll (textPieces escaping output)) =
      runInsertion? setting nested t ctx (Insertion.ofAnswer? (some escaping) text) := by
  unfold expand Insertion.ofAnswer?
  split
  · have hempty : captured (σ := σ) (pure ()) = pure "" := rfl
    rw [hempty, pure_bind, emitAll_textPieces_empty]
    rfl
  · rfl

theorem runPlan_ofValue (escaping : Escaping) (target : Reference) (v : Value) :
    runPlan setting nested t ctx (.effect (.ofValue t escaping target v)) =
      if v.isFalsey then
        pure ()
      else
        match v.collection? with
        | some found =>
          throw (.flawed ⟨⟨.notRenderable found, target.name.span⟩, t.source, none⟩)
        | none => emitAll (valuePieces escaping v) := by
  unfold Effect.ofValue
  split
  · exact runPlan_write setting nested t ctx []
  · split
    · rfl
    · exact runPlan_write setting nested t ctx _

theorem interpolate_eq_runPlan (escaping : Escaping) (target : Reference) :
    interpolate setting nested t ctx escaping target =
      runPlan setting nested t ctx ((Instr.interpolation escaping target).plan t ctx) := by
  rw [interpolate, Instr.plan]
  cases ctx.resolve target with
  | none => rfl
  | some v =>
    cases v with
    | lambda l =>
      dsimp only
      rw [runPlan_ask]
      refine bind_congr fun text => ?_
      exact captured_expand_eq_runInsertion? setting nested t ctx escaping text
    | _ => exact (runPlan_ofValue setting nested t ctx escaping target _).symm

/-- Carrying out an instruction is carrying out its plan. -/
theorem runInstr_eq_runPlan (i : Instr) :
    runInstr setting nested t ctx i = runPlan setting nested t ctx (i.plan t ctx) := by
  cases i with
  | text whole =>
    rw [runInstr, Instr.plan, runPlan_write, emitAll, emitAll]
    exact bind_pure_unit.symm
  | interpolation escaping target =>
    rw [runInstr]
    exact interpolate_eq_runPlan setting nested t ctx escaping target
  | block polarity target raw body =>
    cases polarity with
    | upright =>
      rw [runInstr, Instr.plan]
      cases ctx.resolve target with
      | none => rfl
      | some v =>
        cases v with
        | lambda l =>
          dsimp only
          rw [runPlan_ask]
          exact bind_congr fun text => expand_eq_runInsertion? setting nested t ctx text
        | list items => exact forM_runAll_eq_runAgenda setting nested t ctx items body
        | _ =>
          dsimp only
          split
          · rfl
          · exact runAll_eq_runAgenda setting nested t _ body
    | inverted =>
      rw [runInstr, Instr.plan]
      split
      · exact runAll_eq_runAgenda setting nested t ctx body
      · rfl
  | inclusion name indent =>
    rw [runInstr, Instr.plan, runPlan, perform, includePartial, bind_assoc]
    refine bind_congr fun found => ?_
    cases found <;> rfl

end Plans

end Render

end Mustache
