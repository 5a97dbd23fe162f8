import Mustache.Render.Basic

/-!
# Partials

A partial is compiled where it is first included under its name and indent,
and kept for later inclusions.

Main results:

- Theorem `CompiledPartials.find?_add`: what is kept is found under its name and
  indent and changes nothing else.
- Theorem `Render.partialTemplate_apply`: a partial is compiled only if it is not kept.
-/

namespace Mustache

/-- What is kept is found under its name and indent and changes nothing else. -/
theorem CompiledPartials.find?_add (compiled : CompiledPartials) (name indent : String)
    (t : Template) (otherName otherIndent : String) :
    (compiled.add name indent t).find? otherName otherIndent =
      if otherName = name ∧ otherIndent = indent then some t
      else compiled.find? otherName otherIndent := by
  simp only [find?, add, Dictionary.get?_insert]
  by_cases hn : otherName = name
  · subst hn
    by_cases hi : otherIndent = indent
    · simp [hi, Dictionary.get?_insert]
    · cases h : Dictionary.get? compiled otherName <;> simp [hi, Dictionary.get?_insert]
  · simp [hn]

namespace Render

variable {σ : Type}

/-- Compiles the source of a partial with an indent, and keeps the result. -/
def compilePartial (delimiters : Delimiters) (name indent source : String) :
    Render σ Template := do
  report (.compilingPartial name (Event.sizeOf source) indent)
  let t ← ofExcept (Template.compile delimiters (Template.indented indent source))
  modify fun p => { p with compiled := p.compiled.add name indent t }
  pure t

/-- The partial of a name with an indent, read from the given pair of markers, if there is a
source of this name. -/
def partialTemplate (delimiters : Delimiters) (partials : Dictionary String)
    (name indent : String) : Render σ (Option Template) := do
  let p ← get
  match p.compiled.find? name indent with
  | some t => pure (some t)
  | none =>
    match Dictionary.get? partials name with
    | none =>
      report (.missingPartial name)
      pure none
    | some source =>
      let t ← compilePartial delimiters name indent source
      pure (some t)

/-- A partial is kept if its source compiles; that it is compiled is reported in any case. -/
theorem compilePartial_apply (delimiters : Delimiters) (name indent source : String)
    (p : Progress σ) :
    compilePartial delimiters name indent source p =
      let e := Event.compilingPartial name (Event.sizeOf source) indent
      match Template.compile delimiters (Template.indented indent source) with
      | .ok t =>
        .ok t { p with events := p.events ++ [e], compiled := p.compiled.add name indent t }
      | .error failure => .error failure { p with events := p.events ++ [e] } := by
  unfold compilePartial
  cases Template.compile delimiters (Template.indented indent source) <;> rfl

/-- A partial is found among those that are kept, or else compiled from its source. -/
theorem partialTemplate_apply (delimiters : Delimiters) (partials : Dictionary String)
    (name indent : String) (p : Progress σ) :
    partialTemplate delimiters partials name indent p =
      match p.compiled.find? name indent, Dictionary.get? partials name with
      | some t, _ => .ok (some t) p
      | none, none => .ok none { p with events := p.events ++ [.missingPartial name] }
      | none, some source =>
        match compilePartial delimiters name indent source p with
        | .ok t q => .ok (some t) q
        | .error e q => .error e q := by
  unfold partialTemplate
  change (match p.compiled.find? name indent with
    | some t => pure (some t)
    | none => _ : Render σ (Option Template)) p = _
  cases p.compiled.find? name indent with
  | some t => rfl
  | none =>
    cases Dictionary.get? partials name with
    | none => rfl
    | some source =>
      show EStateM.bind (compilePartial delimiters name indent source) _ p = _
      unfold EStateM.bind
      dsimp only
      cases compilePartial delimiters name indent source p <;> rfl

end Render

end Mustache
