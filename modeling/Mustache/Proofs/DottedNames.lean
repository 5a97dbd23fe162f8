import Mustache.Proofs.NestedSections

/-!
# Dotted names are shorthand for nested sections

A name with dots is looked up in one go: its first segment in the context, each later
one in the value before it.  Sections look up one segment after the other, each in
the context with the values of the sections around.  Both find the same value if there
is a map on the way for each segment: then the innermost value is the one that holds
the next segment, and hides all others.

Main results:

- Theorem `Context.resolve_ofName_dotted`: what a dotted name stands for.
- Theorem `Context.exists_enters`: the sections lead to a context with the same value.
- Theorem `Render.runAll_inNest`: sections with maps run what is inside.
- Theorem `Template.runTemplate_dotted`: a dotted name renders what its last segment
  renders inside sections with the names of the others.
-/

namespace Mustache

/-! ## Names with dots -/

/-- The name that consists of segments with dots in between. -/
def dottedName (ks : List Segment) : List Char :=
  ['.'].intercalate (ks.map Segment.chars)

theorem dottedName_singleton (k : Segment) : dottedName [k] = k.chars := by
  simp [dottedName]

theorem dottedName_cons_cons (k k' : Segment) (ks : List Segment) :
    dottedName (k :: k' :: ks) = k.chars ++ '.' :: dottedName (k' :: ks) := by
  simp [dottedName, List.intercalate_cons_cons]

/-- A dotted name is read as it stands, too. -/
theorem isTagName_dottedName (k : Segment) (ks : List Segment) :
    IsTagName (dottedName (k :: ks)) := by
  induction ks generalizing k with
  | nil =>
    rw [dottedName_singleton]
    exact k.isTagName
  | cons k' ks ih =>
    have hrest := ih k'
    rw [dottedName_cons_cons]
    refine ⟨by simp, ?_, ?_, ?_⟩
    · intro c hc
      rcases List.mem_append.1 hc with hc | hc
      · exact k.isTagName.solid c hc
      · rcases List.mem_cons.1 hc with rfl | hc
        · decide
        · exact hrest.solid c hc
    · intro c hc
      rcases List.mem_append.1 hc with hc | hc
      · exact k.isTagName.braceless c hc
      · rcases List.mem_cons.1 hc with rfl | hc
        · decide
        · exact hrest.braceless c hc
    · intro c hc
      rw [List.head?_append_of_ne_nil _ k.isTagName.ne_nil] at hc
      exact k.isTagName.unmarked c hc

/-- A dotted name is cut into its segments. -/
theorem Reference.segments_ofName_dotted {name : Fragment} {k : Segment} {ks : List Segment}
    (hname : name.text = dottedName (k :: ks)) :
    (ofName name).segments = (k :: ks).map Segment.toString := by
  have hsplit : name.text.splitOn '.' = (k :: ks).map Segment.chars := by
    rw [hname, dottedName, List.splitOn_intercalate]
    · intro chars hchars
      obtain ⟨k', -, rfl⟩ := List.mem_map.1 hchars
      exact k'.dotless
    · simp
  have hdot : name.text ≠ ['.'] := by
    intro hdot
    have hempty : (['.'] : List Char).splitOn '.' = [[], []] := rfl
    rw [hdot, hempty, List.map_cons] at hsplit
    exact k.isTagName.ne_nil (List.cons.inj hsplit).1.symm
  have htexts : (Fragment.split '.' name.start name.text).map Fragment.toString =
      ((Fragment.split '.' name.start name.text).map Fragment.text).map String.ofList := by
    rw [List.map_map]
    rfl
  rw [segments, ofName, if_neg hdot, htexts, Fragment.map_text_split, hsplit, List.map_map]
  rfl

/-! ## Values inside maps -/

/-- A value stands inside another one behind some keys: each value on the way to it is a map that
holds the next key. -/
inductive Value.Holds : Value → List String → Value → Prop
  | nil {v : Value} : Holds v [] v
  | cons {entries : List (String × Value)} {key : String} {keys : List String} {v w : Value}
      (h : Dictionary.get? entries key = some v) (rest : Holds v keys w) :
      Holds (.map entries) (key :: keys) w

/-- A value behind keys is found by looking up one after the other. -/
theorem Value.Holds.foldlM_lookup {v w : Value} {keys : List String} (h : v.Holds keys w) :
    keys.foldlM Value.lookup v = some w := by
  induction h with
  | nil => rfl
  | cons h _ ih =>
    rw [List.foldlM_cons, Value.lookup_map, h]
    exact ih

namespace Context

variable {ctx : Context} {k last : Segment} {v w : Value}

/-- A dotted name stands for the value behind its later segments, inside the one that the first
segment is found to be. -/
theorem resolve_ofName_dotted {ks : List Segment} (hfind : ctx.find k.toString = some v)
    (hholds : v.Holds (ks.map Segment.toString) w) {name : Fragment}
    (hname : name.text = dottedName (k :: ks)) :
    ctx.resolve (Reference.ofName name) = some w := by
  rw [resolve, Reference.segments_ofName_dotted hname, List.map_cons, resolvePath, hfind]
  exact hholds.foldlM_lookup

/-! ## Contexts of nested sections -/

/-- The sections with these names, each inside the one before, lead from one context into another:
each name is found to be a map with entries, which becomes the innermost value. -/
inductive Enters : Context → List Segment → Context → Prop
  | nil {ctx : Context} : Enters ctx [] ctx
  | cons {ctx last : Context} {k : Segment} {ks : List Segment} {entries : List (String × Value)}
      (hfind : ctx.find k.toString = some (.map entries)) (hne : entries ≠ [])
      (rest : Enters (ctx.push (.map entries)) ks last) : Enters ctx (k :: ks) last

/-- Where the segments of a name stand for maps, the sections lead to a context in which the last
segment is found to be what the whole name stands for. -/
theorem exists_enters {outer : List Segment} (hfind : ctx.find k.toString = some v)
    (hholds : v.Holds ((outer ++ [last]).map Segment.toString) w) :
    ∃ inner, ctx.Enters (k :: outer) inner ∧ inner.find last.toString = some w := by
  induction outer generalizing ctx k v with
  | nil =>
    cases hholds with
    | @cons entries _ _ member _ h rest =>
      cases rest
      have hne : entries ≠ [] := by
        rintro rfl
        cases h
      refine ⟨_, .cons hfind hne .nil, ?_⟩
      rw [find_push, Value.lookup_map, h, Option.some_or]
  | cons k' outer ih =>
    cases hholds with
    | @cons entries _ _ member _ h rest =>
      have hne : entries ≠ [] := by
        rintro rfl
        cases h
      have hmember : (ctx.push (.map entries)).find k'.toString = some member := by
        rw [find_push, Value.lookup_map, h, Option.some_or]
      obtain ⟨inner, henters, hlast⟩ := ih hmember rest
      exact ⟨inner, .cons hfind hne henters, hlast⟩

end Context

namespace Render

variable {σ : Type} {s : Setting σ} {nested : Option (Nested σ)} {t t' : Template}
  {ctx ctx' : Context} {target target' : Reference} {w : Value}

/-! ## Running nested sections -/

/-- A single instruction is run by itself. -/
theorem runAll_singleton (i : Instr) :
    runAll s nested t ctx [i] = runInstr s nested t ctx i := by
  rw [runAll, show runAll s nested t ctx [] = pure () from rfl]
  exact bind_pure_unit

/-- Sections with maps run what is inside, in the context that they lead to. -/
theorem runAll_inNest {inner is : List Instr} {outer : List Segment}
    (h : Instr.InNest inner outer is) (hctx : ctx.Enters outer ctx') :
    runAll s nested t ctx is = runAll s nested t ctx' inner := by
  induction h generalizing ctx with
  | nil =>
    cases hctx
    rfl
  | @cons k outer is name raw hname _ ih =>
    cases hctx with
    | @cons _ _ _ _ entries hfind hne rest =>
      have hname' : name.text = dottedName [k] := by rw [hname, dottedName_singleton]
      have hresolve := Context.resolve_ofName_dotted hfind .nil hname'
      rw [runAll_singleton, runInstr, hresolve, ← ih rest]
      simp [Value.isFalsey, hne]

/-! ## Running what uses a name -/

/-- Two renderings come to the same, or both are ended by a format error after the same progress. -/
def SameOrFormat (x y : EStateM.Result Error (Progress σ) Unit) : Prop :=
  x = y ∨ ∃ e e' q, x = .error e q ∧ y = .error e' q ∧ e.kind = .format ∧ e'.kind = .format

/-- Instructions of text write it, in every context. -/
theorem runAll_of_forall_text {is : List Instr} (h : ∀ i ∈ is, ∃ whole, i = .text whole) :
    runAll s nested t ctx is = emitAll (is.map Instr.literal) := by
  induction is with
  | nil => rfl
  | cons i is ih =>
    obtain ⟨⟨whole, rfl⟩, his⟩ := List.forall_mem_cons.1 h
    rw [runAll, ih his]
    rfl

/-- Text writes the same wherever it stands. -/
theorem runAll_map_shift_of_forall_text {text : List Instr}
    (h : ∀ i ∈ text, ∃ whole, i = .text whole) (k : Nat) :
    runAll s nested t ctx (text.map (Instr.shift k)) = emitAll (text.map Instr.literal) := by
  have hshifted : ∀ i ∈ text.map (Instr.shift k), ∃ whole, i = .text whole := by
    intro i hi
    obtain ⟨j, hj, rfl⟩ := List.mem_map.1 hi
    obtain ⟨whole, rfl⟩ := h j hj
    exact ⟨whole.shift k, rfl⟩
  rw [runAll_of_forall_text hshifted, List.map_map]
  congr 1
  apply List.map_congr_left
  intro i hi
  obtain ⟨whole, rfl⟩ := h i hi
  rfl

/-- A value that is no lambda is written, or passed over if it is falsey, or not renderable. -/
theorem interpolate_of_resolve (hresolve : ctx.resolve target = some w)
    (hlambda : ∀ l, w ≠ .lambda l) (escaping : Escaping) :
    interpolate s nested t ctx escaping target =
      if w.isFalsey then pure ()
      else match w.collection? with
        | some found => throw (.flawed ⟨⟨.notRenderable found, target.name.span⟩, t.source, none⟩)
        | none => emitAll (valuePieces escaping w) := by
  rw [interpolate, hresolve]
  cases w with
  | lambda l => exact absurd rfl (hlambda l)
  | _ => rfl

/-- Names that stand for the same value are written alike. -/
theorem sameOrFormat_interpolate (hresolve : ctx.resolve target = some w)
    (hresolve' : ctx'.resolve target' = some w) (hlambda : ∀ l, w ≠ .lambda l)
    (escaping : Escaping) (p : Progress σ) :
    SameOrFormat (interpolate s nested t ctx escaping target p)
      (interpolate s nested t' ctx' escaping target' p) := by
  rw [interpolate_of_resolve hresolve hlambda, interpolate_of_resolve hresolve' hlambda]
  by_cases hfalsey : w.isFalsey = true
  · rw [if_pos hfalsey, if_pos hfalsey]
    exact .inl rfl
  · rw [if_neg hfalsey, if_neg hfalsey]
    cases w.collection? with
    | none => exact .inl rfl
    | some found => exact .inr ⟨_, _, p, rfl, rfl, rfl, rfl⟩

/-- What a section around a text writes for a value that is no lambda. -/
def writeBlock (pieces : List (List Char)) : Polarity → Value → Render σ Unit
  | .upright, .list items => items.forM fun _ => emitAll pieces
  | .upright, w => if w.isFalsey then pure () else emitAll pieces
  | .inverted, w => if w.isFalsey then emitAll pieces else pure ()

/-- A section around a text asks only for the value of its name. -/
theorem runInstr_block_of_resolve (hresolve : ctx.resolve target = some w)
    (hlambda : ∀ l, w ≠ .lambda l) {text : List Instr}
    (htext : ∀ i ∈ text, ∃ whole, i = .text whole) (polarity : Polarity) (raw : Fragment)
    (k : Nat) :
    runInstr s nested t ctx (.block polarity target raw (text.map (Instr.shift k))) =
      writeBlock (text.map Instr.literal) polarity w := by
  cases polarity with
  | inverted =>
    rw [runInstr, hresolve, runAll_map_shift_of_forall_text htext]
    rfl
  | upright =>
    rw [runInstr, hresolve]
    simp only [runAll_map_shift_of_forall_text htext]
    cases w with
    | lambda l => exact absurd rfl (hlambda l)
    | _ => rfl

/-- Names that stand for the same value, in their contexts, are used alike. -/
theorem sameOrFormat_core {use : Usage} {text : List Instr}
    (htext : ∀ i ∈ text, ∃ whole, i = .text whole) {name name' : List Char} {i i' : Instr}
    (hi : use.Core text name i) (hi' : use.Core text name' i')
    (hname : ∀ place : Fragment, place.text = name →
      ctx.resolve (Reference.ofName place) = some w)
    (hname' : ∀ place : Fragment, place.text = name' →
      ctx'.resolve (Reference.ofName place) = some w)
    (hlambda : ∀ l, w ≠ .lambda l) (p : Progress σ) :
    SameOrFormat (runInstr s nested t ctx i p) (runInstr s nested t' ctx' i' p) := by
  cases hi with
  | @interpolation form place hplace =>
    cases hi' with
    | @interpolation _ place' hplace' =>
      rw [runInstr, runInstr]
      exact sameOrFormat_interpolate (hname place hplace) (hname' place' hplace') hlambda _ p
  | @block polarity body place raw k hplace =>
    cases hi' with
    | @block _ _ place' raw' k' hplace' =>
      rw [runInstr_block_of_resolve (hname place hplace) hlambda htext,
        runInstr_block_of_resolve (hname' place' hplace') hlambda htext]
      exact .inl rfl

end Render

/-- A dotted name is shorthand for nested sections.  Take segments of which the first is found in
the context, and each later one in the map that those before it stand for, where the value of the
last one is no lambda.  A tag with the dotted name, which is escaped or not, or a section of this
name around a text, upright or inverted, renders what it renders with the last segment for its name
inside sections with the names of the others, both by itself and in the program of any other
template.  If that value is not renderable, both are ended by a format error. -/
theorem Template.runTemplate_dotted {σ : Type} (use : Usage) (first : Segment)
    (between : List Segment) (last : Segment) :
    ∃ t t',
      compile .standard
        (String.ofList (use.source (dottedName (first :: (between ++ [last]))))) = .ok t ∧
      compile .standard (String.ofList (use.nested last.chars (first :: between))) = .ok t' ∧
      ∀ (ctx : Context) (v w : Value), ctx.find first.toString = some v →
        v.Holds ((between ++ [last]).map Segment.toString) w → (∀ l, w ≠ .lambda l) →
        ∀ (s : Setting σ) (p : Progress σ),
          (∀ depth, Render.SameOrFormat (Render.runTemplate s depth t ctx p)
            (Render.runTemplate s depth t' ctx p)) ∧
          ∀ (nested : Option (Render.Nested σ)) (whole whole' : Template),
            Render.SameOrFormat (Render.runAll s nested whole ctx t.program p)
              (Render.runAll s nested whole' ctx t'.program p) := by
  obtain ⟨text, htext, hcompile⟩ := use.exists_compile
  obtain ⟨t, core, ht, hcore, hnest⟩ :=
    hcompile [] _ (isTagName_dottedName first (between ++ [last]))
  obtain ⟨t', core', ht', hcore', hnest'⟩ := hcompile (first :: between) _ last.isTagName
  refine ⟨t, t', ht, ht', ?_⟩
  intro ctx v w hfind hholds hlambda s p
  obtain ⟨inner, henters, hlast⟩ := Context.exists_enters hfind hholds
  have hsame : ∀ (nested : Option (Render.Nested σ)) (whole whole' : Template),
      Render.SameOrFormat (Render.runAll s nested whole ctx t.program p)
        (Render.runAll s nested whole' ctx t'.program p) := by
    intro nested whole whole'
    rw [Render.runAll_inNest hnest .nil, Render.runAll_inNest hnest' henters,
      Render.runAll_singleton, Render.runAll_singleton]
    refine Render.sameOrFormat_core htext hcore hcore' ?_ ?_ hlambda p
    · intro place hplace
      exact Context.resolve_ofName_dotted hfind hholds hplace
    · intro place hplace
      rw [← dottedName_singleton] at hplace
      exact Context.resolve_ofName_dotted hlast .nil hplace
  refine ⟨?_, hsame⟩
  intro depth
  rw [Render.runTemplate_eq_runAll, Render.runTemplate_eq_runAll]
  exact hsame _ t t'

/-- A section with a dotted name around a text of several lines.  The context has other values for
the later segments, which are hidden. -/
theorem Template.runTemplate_dotted_lines :
    let a : Segment := ⟨['a'], by decide, by decide⟩
    let b : Segment := ⟨['b'], by decide, by decide⟩
    let c : Segment := ⟨['c'], by decide, by decide⟩
    let use : Usage := .block .upright ⟨['\n', '-', '\n'], by decide⟩
    let source := "\x7b\x7b#a.b.c\x7d\x7d\n-\n\x7b\x7b/a.b.c\x7d\x7d"
    let source' := "\x7b\x7b#a\x7d\x7d\x7b\x7b#b\x7d\x7d\x7b\x7b#c\x7d\x7d\n-\n" ++
      "\x7b\x7b/c\x7d\x7d\x7b\x7b/b\x7d\x7d\x7b\x7b/a\x7d\x7d"
    let w : Value := .list [.integer 1, .integer 2]
    let v : Value := .map [("b", .map [("c", w)])]
    let ctx : Context := ⟨.map [("b", .text "no"), ("c", .bool false)], [.map [("a", v)]]⟩
    let s : Setting Unit := ⟨64, ⟨fun _ _ u => ("", u)⟩, fun _ _ => pure none⟩
    let p : Progress Unit := ⟨[], [], [], (), .empty⟩
    String.ofList (use.source (dottedName [a, b, c])) = source ∧
      String.ofList (use.nested c.chars [a, b]) = source' ∧
      ctx.find a.toString = some v ∧ v.Holds ([b, c].map Segment.toString) w ∧
      (∀ l, w ≠ .lambda l) ∧
      ∃ t t' q, compile .standard source = .ok t ∧ compile .standard source' = .ok t' ∧
        Render.runTemplate s 1 t ctx p = .ok () q ∧ Render.runTemplate s 1 t' ctx p = .ok () q ∧
        q.sink.text = "-\n-\n" := by
  intro a b c use source source' w v ctx s p
  have hsource : String.ofList (use.source (dottedName [a, b, c])) = source := by decide +kernel
  have hsource' : String.ofList (use.nested c.chars [a, b]) = source' := by decide +kernel
  have hholds : v.Holds ([b, c].map Segment.toString) w := .cons rfl (.cons rfl .nil)
  obtain ⟨t, t', ht, ht', hsame⟩ := runTemplate_dotted (σ := Unit) use a [b] c
  obtain ⟨hrun, -⟩ := hsame ctx v w rfl hholds (by simp [w]) s p
  rw [List.singleton_append, hsource] at ht
  rw [hsource'] at ht'
  have htext : ((compile .standard source).map fun t =>
      match Render.runTemplate s 1 t ctx p with
      | .ok _ q => some q.sink.text
      | .error _ _ => none) = .ok (some "-\n-\n") := by decide +kernel
  rw [ht] at htext
  refine ⟨hsource, hsource', rfl, hholds, by simp [w], t, t', ?_⟩
  cases hfirst : Render.runTemplate s 1 t ctx p with
  | error e q =>
    simp [Except.map, hfirst] at htext
  | ok u q =>
    simp only [Except.map, hfirst, Except.ok.injEq, Option.some.injEq] at htext
    refine ⟨q, ht, ht', rfl, ?_, htext⟩
    rcases hrun 1 with heq | ⟨e, e', q', herror, -⟩
    · rw [← heq, hfirst]
    · rw [hfirst] at herror
      cases herror

end Mustache
