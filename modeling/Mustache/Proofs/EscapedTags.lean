import Mustache.Proofs.DottedNames
import Mustache.Proofs.Entities
import Mustache.Proofs.LivePairs

/-!
# Escaped tags

A variable has two kinds of tags.  They ask for the same text, in the same way and with the
same traces, and differ only in how they write it: the escaped tag writes the text escaped.
Numbers and truth values are written as they are by both, for no reserved character stands
in them, and the output of a lambda is collected in full before any of it is written.

Main results:

- Theorem `Html.escape_of_ordinary`: nothing changes in a text without reserved characters.
- Theorem `Render.flatten_valuePieces`: the pieces of a value are its text, escaped or not.
- Theorem `Render.tags_course`: what all tags of a name come to, whatever sink they write to.
- Theorem `Render.escaped_tag`: the escaped tag writes what the unescaped one writes, escaped.
- Theorem `Template.runTemplate_escaped`: so do the templates that consist of these tags.
-/

namespace Mustache

variable {σ : Type}

/-! ## Texts of values -/

/-- Nothing changes in a text without reserved characters. -/
theorem Html.escape_of_ordinary {cs : List Char} (h : Ordinary cs) : escape cs = cs := by
  induction cs with
  | nil => rfl
  | cons c cs ih =>
    rw [ordinary_cons] at h
    rw [escape, List.flatMap_cons, ← escape, ih h.2, escapeChar, h.1]
    rfl

namespace Render

/-- The pieces of a value are its text, escaped or not. -/
theorem flatten_valuePieces (escaping : Escaping) (v : Value) :
    (valuePieces escaping v).flatten = Evaluation.quote escaping v.pieces.flatten := by
  have hplain : (∀ s, v ≠ .text s) →
      v.pieces.flatten = Evaluation.quote escaping v.pieces.flatten := by
    intro h
    cases escaping with
    | escaped => exact (Html.escape_of_ordinary (v.ordinary_pieces h)).symm
    | unescaped => rfl
  cases v with
  | text s => simpa [valuePieces] using flatten_textPieces escaping s
  | _ => exact hplain nofun

end Render

/-! ## Sinks that take everything -/

/-- The sink refuses nothing. -/
def Sink.TakesAll (sink : Sink) : Prop :=
  ∀ pieces, sink.refusalAmong? pieces = none

theorem Sink.takesAll_buffer (text : String) : (buffer text).TakesAll :=
  fun pieces => refusalAmong?_buffer text pieces

namespace Render

/-- A sink that takes everything gets all pieces. -/
theorem exists_written {sink : Sink} (h : sink.TakesAll) (pieces : List (List Char))
    (p : Progress σ) :
    ∃ written, emitAll pieces { p with sink := sink } = .ok () { p with sink := written } ∧
      written.bytes = sink.bytes ++ Text.encode pieces.flatten := by
  refine ⟨sink.writeAll pieces, ?_, Sink.bytes_writeAll (h pieces)⟩
  rw [emitAll_eq]
  dsimp only
  rw [h pieces]

/-- A captured text does not depend on the sink. -/
theorem captured_withSink (part : Render σ Unit) (p : Progress σ) (sink : Sink) :
    captured part { p with sink := sink } =
      match captured part p with
      | .ok text q => .ok text { q with sink := sink }
      | .error e q => .error e { q with sink := sink } := by
  unfold captured
  cases part { p with sink := .empty } <;> rfl

/-- Asking does not depend on the sink. -/
theorem exists_ask (host : Host σ) (call : Call) (p : Progress σ) :
    ∃ (text : String) (q : Progress σ), ∀ sink,
      ask host call { p with sink := sink } = .ok text { q with sink := sink } :=
  ⟨(host.answer call.lambda call.argument p.host).1,
    { p with
      calls := p.calls ++ [call]
      host := (host.answer call.lambda call.argument p.host).2 },
    fun _ => rfl⟩

/-! ## The tags of a name -/

section

variable (setting : Setting σ) (nested : Option (Nested σ)) (ctx : Context) (t : Template)
  (target : Reference) (p : Progress σ)

/-- The tags that name the same path, in templates that leave the same pair live, come to the same,
whatever they escape and wherever they write: they have a text, which they write, or they fail. -/
def Course : Prop :=
  (∃ (q : Progress σ) (text : List Char), ∀ u target' escaping sink, u.live = t.live →
    ctx.resolve target' = ctx.resolve target →
    ∃ pieces, pieces.flatten = Evaluation.quote escaping text ∧
      interpolate setting nested u ctx escaping target' { p with sink := sink } =
        emitAll pieces { q with sink := sink }) ∨
    ∃ (q : Progress σ) (kind : ErrorKind), ∀ u target' escaping sink, u.live = t.live →
      ctx.resolve target' = ctx.resolve target →
      ∃ e, e.kind = kind ∧
        interpolate setting nested u ctx escaping target' { p with sink := sink } =
          .error e { q with sink := sink }

variable {setting nested ctx t target p}

/-- Nothing is written for a name that stands for nothing. -/
theorem course_of_nothing (hresolve : ctx.resolve target = none) :
    Course setting nested ctx t target p := by
  refine .inl ⟨p, [], fun u target' escaping sink _ hsame => ⟨[], ?_, ?_⟩⟩
  · cases escaping <;> rfl
  · rw [interpolate, hsame, hresolve]
    rfl

/-- The output of a lambda is collected, and then written, or collecting it fails. -/
theorem course_of_lambda {l : Lambda} (hresolve : ctx.resolve target = some (.lambda l)) :
    Course setting nested ctx t target p := by
  obtain ⟨text, asked, hask⟩ := exists_ask setting.host (Call.ofLambda l "") p
  -- the output is collected on an empty sink, so it is the same for all sinks of the tag
  have hrun : ∀ u target' escaping sink, u.live = t.live →
      ctx.resolve target' = ctx.resolve target →
      interpolate setting nested u ctx escaping target' { p with sink := sink } =
        match captured (expand setting nested t ctx text) asked with
        | .ok output q => emitAll (textPieces escaping output) { q with sink := sink }
        | .error e q => .error e { q with sink := sink } := by
    intro u target' escaping sink hlive hsame
    rw [interpolate, hsame, hresolve]
    show EStateM.bind (ask setting.host (Call.ofLambda l "")) _ _ = _
    rw [EStateM.bind, hask]
    simp only [expand_eq_of_live hlive]
    show EStateM.bind (captured (expand setting nested t ctx text)) _ _ = _
    rw [EStateM.bind, captured_withSink]
    cases captured (expand setting nested t ctx text) asked <;> rfl
  cases hcaptured : captured (expand setting nested t ctx text) asked with
  | ok output q =>
    refine .inl ⟨q, output.toList, fun u target' escaping sink hlive hsame =>
      ⟨textPieces escaping output, flatten_textPieces escaping output, ?_⟩⟩
    rw [hrun u target' escaping sink hlive hsame, hcaptured]
  | error e q =>
    refine .inr ⟨q, e.kind, fun u target' escaping sink hlive hsame => ⟨e, rfl, ?_⟩⟩
    rw [hrun u target' escaping sink hlive hsame, hcaptured]

/-- A value has a text, which may be empty, or is a collection. -/
theorem course_of_value {v : Value} (hresolve : ctx.resolve target = some v)
    (hlambda : ∀ l, v ≠ .lambda l) : Course setting nested ctx t target p := by
  have hrun : ∀ u target' escaping, ctx.resolve target' = ctx.resolve target →
      interpolate setting nested u ctx escaping target' = _ :=
    fun u target' escaping hsame => interpolate_of_resolve (hsame.trans hresolve) hlambda escaping
  by_cases hfalsey : v.isFalsey = true
  · refine .inl ⟨p, [], fun u target' escaping sink _ hsame => ⟨[], ?_, ?_⟩⟩
    · cases escaping <;> rfl
    · rw [hrun u target' escaping hsame, if_pos hfalsey]
      rfl
  · cases hcollection : v.collection? with
    | some found =>
      refine .inr ⟨p, .format, fun u target' escaping sink _ hsame =>
        ⟨.flawed ⟨⟨.notRenderable found, target'.name.span⟩, u.source, none⟩, rfl, ?_⟩⟩
      rw [hrun u target' escaping hsame, if_neg hfalsey, hcollection]
      rfl
    | none =>
      refine .inl ⟨p, v.pieces.flatten, fun u target' escaping sink _ hsame =>
        ⟨valuePieces escaping v, flatten_valuePieces escaping v, ?_⟩⟩
      rw [hrun u target' escaping hsame, if_neg hfalsey, hcollection]

/-- Whatever a name stands for, all its tags come to the same. -/
theorem tags_course : Course setting nested ctx t target p := by
  cases hresolve : ctx.resolve target with
  | none => exact course_of_nothing hresolve
  | some v =>
    cases v with
    | lambda l => exact course_of_lambda hresolve
    | _ => exact course_of_value hresolve nofun

end

/-- What comes of two parts of a rendering that write to these sinks, of which the first escapes.
Either both have come to the same state and have a text to write, the first one what the second
one has, but escaped; sinks that take everything get these texts.  Or both fail with an error of the
same kind, and have written nothing.  The state that they come to is one and the same: the events,
the calls of lambdas, the host and the compiled partials. -/
def WritesEscaped (sink sink' : Sink) (escaped unescaped : EStateM.Result Error (Progress σ) Unit) :
    Prop :=
  (∃ (q : Progress σ) (text : List Char) (pieces pieces' : List (List Char)),
    escaped = emitAll pieces { q with sink := sink } ∧ pieces.flatten = Html.escape text ∧
    unescaped = emitAll pieces' { q with sink := sink' } ∧ pieces'.flatten = text ∧
    (sink.TakesAll → ∃ written, escaped = .ok () { q with sink := written } ∧
      written.bytes = sink.bytes ++ Text.encode (Html.escape text)) ∧
    (sink'.TakesAll → ∃ written, unescaped = .ok () { q with sink := written } ∧
      written.bytes = sink'.bytes ++ Text.encode text)) ∨
  ∃ (q : Progress σ) (e e' : Error),
    escaped = .error e { q with sink := sink } ∧
    unescaped = .error e' { q with sink := sink' } ∧ e.kind = e'.kind

/-- Values of one name, in templates that leave the same pair live. -/
theorem writesEscaped_interpolate (setting : Setting σ) (nested : Option (Nested σ)) (ctx : Context)
    {t u : Template} (hlive : t.live = u.live) {target target' : Reference}
    (hresolve : ctx.resolve target' = ctx.resolve target) (p : Progress σ) (sink sink' : Sink) :
    WritesEscaped sink sink'
      (interpolate setting nested t ctx .escaped target { p with sink := sink })
      (interpolate setting nested u ctx .unescaped target' { p with sink := sink' }) := by
  have hcourse : Course setting nested ctx t target p := tags_course
  rcases hcourse with ⟨q, text, hrun⟩ | ⟨q, kind, hrun⟩
  · left
    obtain ⟨pieces, hpieces, hescaped⟩ := hrun t target .escaped sink rfl rfl
    obtain ⟨pieces', hpieces', hunescaped⟩ := hrun u target' .unescaped sink' hlive.symm hresolve
    have htext : pieces.flatten = Html.escape text := hpieces
    have htext' : pieces'.flatten = text := hpieces'
    rw [hescaped, hunescaped]
    refine ⟨q, text, pieces, pieces', rfl, htext, rfl, htext', fun hsink => ?_, fun hsink => ?_⟩
    · rw [← htext]
      exact exists_written hsink pieces q
    · rw [← htext']
      exact exists_written hsink pieces' q
  · right
    obtain ⟨e, hkind, hescaped⟩ := hrun t target .escaped sink rfl rfl
    obtain ⟨e', hkind', hunescaped⟩ := hrun u target' .unescaped sink' hlive.symm hresolve
    exact ⟨q, e, e', hescaped, hunescaped, hkind.trans hkind'.symm⟩

/-- An escaped tag and an unescaped tag of the same name, in templates that leave the same pair
live, in one context, with as many templates nested inside as may be, and from one state of the
host and of the compiled partials: the escaped tag writes what the unescaped one writes, escaped. -/
theorem escaped_tag (setting : Setting σ) (nested : Option (Nested σ)) (ctx : Context)
    {t u : Template} (hlive : t.live = u.live) {name name' : Fragment}
    (hname : name.text = name'.text) (p : Progress σ) (sink sink' : Sink) :
    WritesEscaped sink sink'
      (runInstr setting nested t ctx (.interpolation .escaped (.ofName name))
        { p with sink := sink })
      (runInstr setting nested u ctx (.interpolation .unescaped (.ofName name'))
        { p with sink := sink' }) := by
  have hresolve : ctx.resolve (.ofName name') = ctx.resolve (.ofName name) := by
    rw [Context.resolve_ofName, Context.resolve_ofName, hname]
  rw [runInstr, runInstr]
  exact writesEscaped_interpolate setting nested ctx hlive hresolve p sink sink'

/-- A lambda whose text holds a reserved character, a partial and a tag that is itself escaped. -/
theorem escaped_tag_lambda :
    let setting : Setting Nat :=
      ⟨4, ⟨fun _ _ n => ("<\x7b\x7b>p\x7d\x7d", n + 1)⟩,
        partialTemplate .standard [("p", "a & \x7b\x7bx\x7d\x7d")]⟩
    let ctx := Context.ofView (.map [("f", .lambda ⟨0, .interpolation⟩), ("x", .text ">")])
    let p : Progress Nat := ⟨[], [], [], 0, .empty⟩
    let escaped := runInstr setting (nestedAt setting 4) ⟨"\x7b\x7bf\x7d\x7d", .standard, []⟩ ctx
      (.interpolation .escaped (.ofName ⟨2, ['f']⟩)) p
    let unescaped := runInstr setting (nestedAt setting 4) ⟨"\x7b\x7b&f\x7d\x7d", .standard, []⟩ ctx
      (.interpolation .unescaped (.ofName ⟨3, ['f']⟩)) p
    (match escaped with | .ok _ q => q.sink.text | .error _ _ => "") = "&lt;a &amp; &amp;gt;" ∧
      (match unescaped with | .ok _ q => q.sink.text | .error _ _ => "") = "<a & &gt;" ∧
      ∃ (q : Progress Nat) (text : List Char),
        (∃ written, escaped = .ok () { q with sink := written } ∧
          written.bytes = Text.encode (Html.escape text)) ∧
        ∃ written, unescaped = .ok () { q with sink := written } ∧
          written.bytes = Text.encode text := by
  intro setting ctx p escaped unescaped
  have htext : (match escaped with | .ok _ q => q.sink.text | .error _ _ => "") =
      "&lt;a &amp; &amp;gt;" := by decide +kernel
  refine ⟨htext, by decide +kernel, ?_⟩
  have htakes : Sink.empty.TakesAll := Sink.takesAll_buffer ""
  rcases escaped_tag setting (nestedAt setting 4) ctx rfl rfl p .empty .empty with
    ⟨q, text, pieces, pieces', -, -, -, -, hescaped, hunescaped⟩ | ⟨q, e, e', hfailed, -⟩
  · exact ⟨q, text, hescaped htakes, hunescaped htakes⟩
  · have hwrong : escaped = .error e { q with sink := .empty } := hfailed
    rw [hwrong] at htext
    have hdifferent : "" ≠ "&lt;a &amp; &amp;gt;" := by decide
    exact absurd htext hdifferent

end Render

/-! ## Templates of one tag -/

namespace Template

/-- A template of one variable tag is its instruction, and leaves the pair live that it began
with. -/
theorem exists_compile_tag (form : VariableForm) {name : List Char} (h : IsTagName name) :
    ∃ t place, compile .standard (String.ofList ((Usage.interpolation form).source name)) = .ok t ∧
      place.text = name ∧ t.live = .standard ∧
      t.program = [.interpolation form.escaping (.ofName place)] := by
  obtain ⟨t, core, ht, hcore, hnest⟩ := Usage.exists_compile_interpolation form h [] []
  have hprogram : t.program = [core] := by
    generalize t.program = is at hnest ⊢
    cases hnest
    rfl
  have hstream := (ofSource_of_compile ht).2.1
  rw [String.toList_ofList, Usage.ofSource_nested _ h, Except.ok.injEq,
    Token.Stream.mk.injEq] at hstream
  cases hcore with
  | interpolation hplace => exact ⟨t, _, ht, hplace, hstream.2.symm, hprogram⟩

/-- A name between two markers, and the same name behind an ampersand or between braces: the
template of the first tag writes what that of the other one writes, escaped, to every depth and
whatever the name stands for. -/
theorem runTemplate_escaped {name : List Char} (h : IsTagName name) {form : VariableForm}
    (hform : form.escaping = .unescaped) :
    ∃ t u, compile .standard (String.ofList ((Usage.interpolation .plain).source name)) = .ok t ∧
      compile .standard (String.ofList ((Usage.interpolation form).source name)) = .ok u ∧
      ∀ (setting : Setting σ) (depth : Nat) (ctx : Context) (p : Progress σ) (sink sink' : Sink),
        Render.WritesEscaped sink sink'
          (Render.runTemplate setting depth t ctx { p with sink := sink })
          (Render.runTemplate setting depth u ctx { p with sink := sink' }) := by
  obtain ⟨t, place, ht, hplace, hlive, hprogram⟩ := exists_compile_tag .plain h
  obtain ⟨u, place', hu, hplace', hlive', hprogram'⟩ := exists_compile_tag form h
  refine ⟨t, u, ht, hu, fun setting depth ctx p sink sink' => ?_⟩
  rw [Render.runTemplate_eq_runAll, Render.runTemplate_eq_runAll, hprogram, hprogram',
    Render.runAll_singleton, Render.runAll_singleton, Render.runInstr, Render.runInstr, hform]
  refine Render.writesEscaped_interpolate setting _ ctx (hlive.trans hlive'.symm) ?_ p sink sink'
  rw [Context.resolve_ofName, Context.resolve_ofName, hplace, hplace']

end Template

end Mustache
