import Mustache.Html
import Mustache.Render.Partial

/-!
# Running a program

The instructions of a program are carried out in order.  Sections run their
body in a larger context.  Inclusions and lambda texts run another template;
how often such templates may still be nested is counted down, so every run
comes to an end.
-/

namespace Mustache

namespace Render

variable {σ : Type}

/-! ## Templates inside templates -/

/-- How a template inside the current one is run. -/
abbrev Nested (σ : Type) := Template → Context → Render σ Unit

/-- The way to run a template inside the current one, if the limit still allows it. -/
def enter (setting : Setting σ) (nested : Option (Nested σ)) : Render σ (Nested σ) :=
  match nested with
  | none => throw (.includeLimit setting.limit)
  | some run => pure run

@[simp]
theorem enter_some (setting : Setting σ) (run : Nested σ) :
    enter setting (some run) = pure run :=
  rfl

/-- Runs the text of a lambda, which is read from the pair of markers that is live at the end of
the template around it.  An empty text is not run. -/
def expand (setting : Setting σ) (nested : Option (Nested σ)) (t : Template) (ctx : Context)
    (text : String) : Render σ Unit := do
  if text.isEmpty then
    pure ()
  else
    let run ← enter setting nested
    report (.expandingLambda (Event.sizeOf text))
    let expanded ← ofExcept (Template.compile t.live text)
    run expanded ctx

/-- Runs a partial.  Flaws of its source are reported under its name; a partial that does not
exist is passed over. -/
def includePartial (setting : Setting σ) (nested : Option (Nested σ)) (ctx : Context)
    (name indent : String) : Render σ Unit := do
  match ← mapError (Error.blame name) (setting.load name indent) with
  | none => pure ()
  | some t =>
    let run ← enter setting nested
    mapError (Error.blameOwner name t.source) (run t ctx)

/-! ## Values -/

/-- The pieces of a text under an escaping. -/
def textPieces (escaping : Escaping) (text : String) : List (List Char) :=
  match escaping with
  | .escaped => Html.escapePieces text.toList
  | .unescaped => [text.toList]

/-- The pieces of a value under an escaping, which concerns texts only. -/
def valuePieces (escaping : Escaping) (v : Value) : List (List Char) :=
  match v with
  | .text s => textPieces escaping s
  | v => v.pieces

/-- Writes the value of a name. -/
def interpolate (setting : Setting σ) (nested : Option (Nested σ)) (t : Template) (ctx : Context)
    (escaping : Escaping) (target : Reference) : Render σ Unit :=
  match ctx.resolve target with
  | none => pure ()
  | some (.lambda l) => do
    let text ← ask setting.host (Call.ofLambda l "")
    let output ← captured (expand setting nested t ctx text)
    emitAll (textPieces escaping output)
  | some v =>
    if v.isFalsey then
      pure ()
    else
      match v.collection? with
      | some found =>
        throw (.flawed ⟨⟨.notRenderable found, target.name.span⟩, t.source, none⟩)
      | none => emitAll (valuePieces escaping v)

/-! ## Instructions -/

mutual

/-- Carries out an instruction. -/
def runInstr (setting : Setting σ) (nested : Option (Nested σ)) (t : Template)
    (ctx : Context) : Instr → Render σ Unit
  | .text whole => emit whole.text
  | .interpolation escaping target => interpolate setting nested t ctx escaping target
  | .block .upright target raw body =>
    match ctx.resolve target with
    | none => pure ()
    | some (.lambda l) => do
      let text ← ask setting.host (Call.ofLambda l raw.toString)
      expand setting nested t ctx text
    | some (.list items) => items.forM fun item => runAll setting nested t (ctx.push item) body
    | some v => if v.isFalsey then pure () else runAll setting nested t (ctx.push v) body
  | .block .inverted target _ body =>
    if (ctx.resolve target).all Value.isFalsey then
      runAll setting nested t ctx body
    else
      pure ()
  | .inclusion name indent => includePartial setting nested ctx name indent

/-- Carries out instructions one after the other. -/
def runAll (setting : Setting σ) (nested : Option (Nested σ)) (t : Template)
    (ctx : Context) : List Instr → Render σ Unit
  | [] => pure ()
  | i :: is => do
    runInstr setting nested t ctx i
    runAll setting nested t ctx is

end

/-- Runs a template inside which others may be nested to a given depth. -/
def runTemplate (setting : Setting σ) : Nat → Nested σ
  | 0 => fun t ctx => runAll setting none t ctx t.program
  | depth + 1 => fun t ctx => runAll setting (some (runTemplate setting depth)) t ctx t.program

end Render

/-- Renders a template against a view. -/
def Template.render {σ : Type} (setting : Setting σ) (t : Template) (view : Value) :
    Render σ Unit :=
  Render.runTemplate setting setting.limit t (Context.ofView view)

end Mustache
