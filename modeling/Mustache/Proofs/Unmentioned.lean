import Mustache.Proofs.SafeOutput
import Mustache.Proofs.SectionText

/-!
# Keys that are not mentioned

A name looks up the part before its first dot in the values around it, and the other
parts in the value that it has found there.  A key of the view that is the first part
of no name is therefore never looked up.  Whether the key is there, and which value it
has, makes no difference to a rendering, however deep sections and partials are nested,
as long as no name is the dot, which stands for the innermost value itself.

Main results:

- Theorem `Context.AgreesBut.push`: contexts that differ in a key only still do so inside
  a section.
- Theorem `Render.runInstr_agreesBut` and theorem `Render.runTemplate_agreesBut`: what
  avoids a key is carried out alike in such contexts.
- Theorem `Session.render_of_avoids`: two views that differ in a key only are rendered
  alike.
-/

namespace Mustache

/-! ## Names that avoid a key -/

/-- The name is not the dot, and the part before its first dot is not the key. -/
def Fragment.Avoids (key : String) (name : Fragment) : Prop :=
  name.text ≠ ['.'] ∧ String.ofList (name.text.takeWhile (· ≠ '.')) ≠ key

instance (key : String) (name : Fragment) : Decidable (name.Avoids key) :=
  inferInstanceAs (Decidable (_ ∧ _))

/-- The name for which a token looks a value up. -/
def TokenKind.subject? : TokenKind → Option Fragment
  | interpolation _ name | sectionOpen _ name => some name
  | _ => none

/-- The names of all variables, sections and inverted sections of a source avoid the key. -/
def Token.Avoids (pair : Delimiters) (key : String) (source : List Char) : Prop :=
  ∀ stream, ofSource pair source = .ok stream →
    ∀ t ∈ stream.tokens, ∀ name ∈ t.kind.subject?, name.Avoids key

instance (pair : Delimiters) (key : String) (source : List Char) :
    Decidable (Token.Avoids pair key source) :=
  match h : Token.ofSource pair source with
  | .ok stream =>
    decidable_of_iff (∀ t ∈ stream.tokens, ∀ name ∈ t.kind.subject?, name.Avoids key)
      (by simp [Token.Avoids, h])
  | .error _ => .isTrue (by simp [Token.Avoids, h])

/-! ## Names behind an indent -/

@[simp]
theorem TokenKind.subject?_outline (kind : TokenKind) (o : Outline) :
    (kind.outline o).subject? = kind.subject?.map o.name := by
  cases kind <;> rfl

@[simp]
theorem TokenKind.subject?_rename (kind : TokenKind) (f : List Char → List Char) :
    (kind.rename f).subject? = kind.subject?.map fun name => ⟨0, f name.text⟩ := by
  cases kind <;> rfl

/-- A text without newlines is the same behind an indent. -/
theorem Text.afterNewlines_of_newline_not_mem (w : List Char) {cs : List Char} (h : '\n' ∉ cs) :
    afterNewlines w cs = cs := by
  induction cs with
  | nil => rfl
  | cons c cs ih =>
    have hc : (c == '\n') = false := by
      simpa using fun heq : c = '\n' => h (heq ▸ List.mem_cons_self)
    rw [afterNewlines, hc, ih fun hmem => h (List.mem_cons_of_mem _ hmem)]
    rfl

/-- The name of a token behind an indent is that of the token, with the indent inside. -/
theorem Token.exists_subject_of_mem_behindIndent {w : List Char} {t u : Token}
    (hu : u ∈ behindIndent w t) {name : Fragment} (hname : u.kind.subject? = some name) :
    ∃ name', t.kind.subject? = some name' ∧ name.text = Text.afterNewlines w name'.text := by
  by_cases hkind : t.kind = .text
  · rw [behindIndent_of_kind_eq_text hkind, List.mem_singleton] at hu
    subst hu
    cases hname
  · rw [behindIndent_of_kind_ne_text hkind, List.mem_append, List.mem_singleton] at hu
    rcases hu with hu | rfl
    · split at hu
      · rw [List.mem_singleton] at hu
        subst hu
        cases hname
      · cases hu
    · rw [TokenKind.subject?_rename] at hname
      obtain ⟨name', hname', rfl⟩ := Option.map_eq_some_iff.1 hname
      exact ⟨name', hname', rfl⟩

/-- Names without newlines avoid the key behind every indent if they do without one. -/
theorem Token.Avoids.indentLines {pair : Delimiters} {key : String} {source : List Char}
    (h : Avoids pair key source)
    (hnames : ∀ stream, ofSource pair source = .ok stream →
      ∀ t ∈ stream.tokens, ∀ name ∈ t.kind.subject?, '\n' ∉ name.text)
    {w : List Char} (hw : Text.IsIndent w) : Avoids pair key (Template.indentLines w source) := by
  by_cases hne : w = []
  · rwa [hne, Template.indentLines_nil]
  · intro stream hstream t ht name hname
    obtain ⟨plain, hsource, htokens⟩ := exists_behindIndent_of_ofSource hne hw hstream
    obtain ⟨v, hv, u, hu, hcontents⟩ := htokens t ht
    obtain ⟨u', hu', hkind, -, -⟩ := exists_outline Outline.keepsText_contents t
    obtain rfl : u = u' := Option.some.inj (hcontents.symm.trans hu')
    have hsubject : u.kind.subject? = some ⟨0, name.text⟩ := by
      rw [hkind, TokenKind.subject?_outline, hname]
      rfl
    obtain ⟨name', hname', htext⟩ := exists_subject_of_mem_behindIndent hu hsubject
    rw [Text.afterNewlines_of_newline_not_mem w (hnames plain hsource v hv name' hname')] at htext
    have havoids := h plain hsource v hv name' hname'
    rwa [Fragment.Avoids, ← htext] at havoids

/-! ## Paths that avoid a key -/

/-- The path is not empty and does not begin with the key. -/
def Reference.Avoids (key : String) (target : Reference) : Prop :=
  ∃ first rest, target.segments = first :: rest ∧ first ≠ key

/-- The first part of a name ends before the first dot. -/
theorem Fragment.head?_map_text_split (start : Nat) (cs : List Char) :
    ((split '.' start cs).map Fragment.text).head? = some (cs.takeWhile (· ≠ '.')) := by
  induction cs generalizing start with
  | nil => rfl
  | cons c cs ih =>
    rw [split]
    by_cases hc : c = '.'
    · simp [hc]
    · have hrest := ih (start + c.utf8Size)
      rw [if_neg hc, List.takeWhile_cons_of_pos (by simpa using hc)]
      cases hsplit : split '.' (start + c.utf8Size) cs with
      | nil => exact absurd hsplit (split_ne_nil '.' _ cs)
      | cons f fs =>
        rw [hsplit] at hrest
        have hf : f.text = cs.takeWhile (· ≠ '.') := Option.some.inj hrest
        simp [hf]

/-- A name that avoids a key has a path that does. -/
theorem Reference.avoids_ofName {key : String} {name : Fragment} (h : name.Avoids key) :
    (ofName name).Avoids key := by
  obtain ⟨hdot, hfirst⟩ := h
  have hhead := Fragment.head?_map_text_split name.start name.text
  rw [Avoids, segments, ofName, if_neg hdot]
  cases hsplit : Fragment.split '.' name.start name.text with
  | nil => exact absurd hsplit (Fragment.split_ne_nil '.' _ _)
  | cons f fs =>
    rw [hsplit] at hhead
    refine ⟨f.toString, fs.map Fragment.toString, rfl, ?_⟩
    rwa [Fragment.toString, Option.some.inj hhead]

/-! ## Contexts that differ in a key only -/

namespace Context

/-- Every other name than the key is found with the same value. -/
def AgreesBut (key : String) (ctx ctx' : Context) : Prop :=
  ∀ segment, segment ≠ key → ctx.find segment = ctx'.find segment

variable {key : String} {ctx ctx' : Context}

/-- Views that differ in a key only are such contexts. -/
theorem agreesBut_ofView {entries entries' : List (String × Value)}
    (h : ∀ other, other ≠ key → Dictionary.get? entries other = Dictionary.get? entries' other) :
    AgreesBut key (ofView (.map entries)) (ofView (.map entries')) := by
  intro segment hsegment
  have hsame := h segment hsegment
  simp only [find, values, ofView, List.findSome?_cons, Value.lookup_map, hsame]

/-- Contexts that differ in a key only still do so inside a section: the value of the section is
looked at first in both. -/
theorem AgreesBut.push (h : AgreesBut key ctx ctx') (v : Value) :
    AgreesBut key (ctx.push v) (ctx'.push v) := by
  intro segment hsegment
  rw [find_push, find_push, h segment hsegment]

/-- A path that avoids the key leads to the same value. -/
theorem AgreesBut.resolve (h : AgreesBut key ctx ctx') {target : Reference}
    (htarget : target.Avoids key) : ctx.resolve target = ctx'.resolve target := by
  obtain ⟨first, rest, hsegments, hfirst⟩ := htarget
  rw [Context.resolve, Context.resolve, hsegments, resolvePath, resolvePath, h first hfirst]

/-- A path leads to a value without lambdas. -/
theorem LambdaFree.of_resolve (hctx : ctx.LambdaFree) {target : Reference} {v : Value}
    (h : ctx.resolve target = some v) : v.LambdaFree := by
  rw [Context.resolve] at h
  cases hsegments : target.segments with
  | nil =>
    rw [hsegments] at h
    cases h
    exact hctx ctx.current List.mem_cons_self
  | cons first rest =>
    rw [hsegments, resolvePath] at h
    obtain ⟨found, hfound, hrest⟩ := Option.bind_eq_some_iff.1 h
    rw [← searchMember_values] at hfound
    rw [← descend_eq_foldlM] at hrest
    exact (lambdaFree_of_searchMember hctx hfound).of_descend hrest

end Context

/-! ## Programs that avoid a key -/

/-- The instruction looks up no path that begins with the key.  An indent consists of blanks. -/
def Instr.Avoids (key : String) : Instr → Prop
  | text _ => True
  | interpolation _ target | block _ target _ _ => target.Avoids key
  | inclusion _ indent => Text.IsIndent indent.toList

/-- All instructions of the template, at every depth, avoid the key. -/
def Template.Avoids (key : String) (t : Template) : Prop :=
  ∀ i : Instr, i.Within t.program → i.Avoids key

/-- Settling changes no name for which a value is looked up. -/
theorem Token.Avoids.of_mem_settle {pair : Delimiters} {key : String} {source : List Char}
    (h : Avoids pair key source) {stream : Stream} (hstream : ofSource pair source = .ok stream)
    {t : Token} (ht : t ∈ settle stream.tokens) {name : Fragment}
    (hname : t.kind.subject? = some name) : name.Avoids key := by
  have hmem : t ∈ stream.tokens := by
    apply mem_of_mem_settle ht
    intro included indent hkind
    rw [hkind] at hname
    cases hname
  exact h stream hstream t hmem name hname

/-- The instruction for a node of a source whose names avoid a key does so itself. -/
theorem Instr.avoids_ofNode {pair live : Delimiters} {key : String} {source : List Char}
    (h : Token.Avoids pair key source) {nodes : List Node}
    (htree : Template.tree pair source = .ok (nodes, live)) {n : Node} (hn : n.Within nodes) :
    (ofNode source n).Avoids key := by
  obtain ⟨stream, hstream, -, hnodes⟩ := Template.exists_of_tree_eq_ok htree
  have hindent := Template.isIndent_of_tree htree n hn
  have hname : ∀ t ∈ Token.settle stream.tokens, ∀ name, t.kind.subject? = some name →
      (Reference.ofName name).Avoids key := fun t ht name hsubject =>
    Reference.avoids_ofName (h.of_mem_settle hstream ht hsubject)
  obtain ⟨t, ht, hleaf | ⟨polarity, name, closing, body, hkind, rfl⟩⟩ :=
    (Node.ofTokens_eq_ok_iff.1 hnodes).exists_token_of_within hn
  · unfold Token.leaf? at hleaf
    split at hleaf
    · cases hleaf
      trivial
    · rename_i escaping name hkind
      cases hleaf
      exact hname t ht name (by rw [hkind]; rfl)
    · cases hleaf
      rw [ofNode, Avoids, String.toList_ofList]
      exact hindent
    · cases hleaf
  · exact hname t ht name (by rw [hkind]; rfl)

/-- A source whose names avoid a key has a program that does. -/
theorem Template.avoids_of_compile {pair : Delimiters} {key source : String} {t : Template}
    (h : Token.Avoids pair key source.toList) (ht : compile pair source = .ok t) :
    t.Avoids key := by
  unfold compile at ht
  split at ht
  · rename_i nodes live htree
    cases ht
    intro i hi
    rcases Instr.exists_of_within hi with ⟨whole, rfl⟩ | ⟨n, hn, rfl⟩
    · trivial
    · exact Instr.avoids_ofNode h htree hn
  · cases ht

/-! ## Rendering in contexts that differ in a key only -/

namespace Render

variable {σ : Type} {key : String} {setting : Setting σ} {nested : Option (Nested σ)}
variable {t : Template} {ctx ctx' : Context}

/-- Templates that avoid the key are run alike in contexts that differ in the key only. -/
def Nested.Ignores (key : String) (run : Nested σ) : Prop :=
  ∀ (t : Template) (ctx ctx' : Context), t.Avoids key → ctx.AgreesBut key ctx' → ctx.LambdaFree →
    run t ctx = run t ctx'

/-- Partials behind an indent avoid the key. -/
def LoadsAvoiding (key : String) (setting : Setting σ) : Prop :=
  ∀ name indent, Text.IsIndent indent.toList → ∀ p t q,
    setting.load name indent p = .ok (some t) q → t.Avoids key

/-- Rounds of a loop that are alike are a loop that is alike. -/
theorem forM_congr {α : Type} {items : List α} {f g : α → Render σ Unit}
    (h : ∀ item ∈ items, f item = g item) : items.forM f = items.forM g := by
  induction items with
  | nil => rfl
  | cons item items ih =>
    have hrest := ih fun other hother => h other (List.mem_cons_of_mem _ hother)
    show (f item >>= fun _ => items.forM f) = g item >>= fun _ => items.forM g
    rw [h item List.mem_cons_self, hrest]

/-- A variable that avoids the key is written alike. -/
theorem interpolate_agreesBut (h : ctx.AgreesBut key ctx') (hctx : ctx.LambdaFree)
    (escaping : Escaping) {target : Reference} (htarget : target.Avoids key) :
    interpolate setting nested t ctx escaping target =
      interpolate setting nested t ctx' escaping target := by
  rw [interpolate, interpolate, ← h.resolve htarget]
  cases hvalue : ctx.resolve target with
  | none => rfl
  | some v =>
    have hv := hctx.of_resolve hvalue
    cases hv <;> rfl

/-- A partial is included alike. -/
theorem includePartial_agreesBut (hload : LoadsAvoiding key setting)
    (hnested : ∀ run ∈ nested, Nested.Ignores key run) (h : ctx.AgreesBut key ctx')
    (hctx : ctx.LambdaFree) (name : String) {indent : String}
    (hindent : Text.IsIndent indent.toList) :
    includePartial setting nested ctx name indent =
      includePartial setting nested ctx' name indent := by
  funext p
  change EStateM.bind (mapError (Error.blame name) (setting.load name indent)) _ p =
    EStateM.bind (mapError (Error.blame name) (setting.load name indent)) _ p
  rw [EStateM.bind, EStateM.bind, mapError]
  cases hfound : setting.load name indent p with
  | error e q => rfl
  | ok found q =>
    cases found with
    | none => rfl
    | some inner =>
      cases nested with
      | none => rfl
      | some run =>
        have hinner := hload name indent hindent p inner q hfound
        have hrun := hnested run rfl inner ctx ctx' hinner h hctx
        simp only [enter_some, pure_bind, hrun]

mutual

/-- In contexts that differ in the key only, an instruction is carried out alike if it and all that
stands inside it avoid the key. -/
theorem runInstr_agreesBut (hload : LoadsAvoiding key setting)
    (hnested : ∀ run ∈ nested, Nested.Ignores key run) :
    ∀ (i : Instr) {ctx ctx' : Context}, (∀ j : Instr, j.Within [i] → j.Avoids key) →
      ctx.AgreesBut key ctx' → ctx.LambdaFree →
        runInstr setting nested t ctx i = runInstr setting nested t ctx' i
  | .text whole, _, _, _, _, _ => by
    rw [runInstr, runInstr]
  | .interpolation escaping target, _, _, havoids, h, hctx => by
    rw [runInstr, runInstr]
    exact interpolate_agreesBut h hctx escaping (havoids _ (.here List.mem_cons_self))
  | .block .upright target raw body, ctx, ctx', havoids, h, hctx => by
    have htarget := h.resolve (havoids _ (.here List.mem_cons_self))
    have hbody : ∀ j : Instr, j.Within body → j.Avoids key := fun j hj =>
      havoids j (.inside List.mem_cons_self hj)
    rw [runInstr, runInstr, ← htarget]
    cases hvalue : ctx.resolve target with
    | none => rfl
    | some v =>
      have hv := hctx.of_resolve hvalue
      have honce := runAll_agreesBut hload hnested body hbody (h.push v) (hctx.push hv)
      cases hv with
      | @list items hitems =>
        show (items.forM fun item => runAll setting nested t (ctx.push item) body) =
          items.forM fun item => runAll setting nested t (ctx'.push item) body
        apply forM_congr
        intro item hitem
        exact runAll_agreesBut hload hnested body hbody (h.push item)
          (hctx.push (hitems item hitem))
      | _ => simp only [honce]
  | .block .inverted target raw body, ctx, ctx', havoids, h, hctx => by
    have htarget := h.resolve (havoids _ (.here List.mem_cons_self))
    have hbody : ∀ j : Instr, j.Within body → j.Avoids key := fun j hj =>
      havoids j (.inside List.mem_cons_self hj)
    rw [runInstr, runInstr, ← htarget, runAll_agreesBut hload hnested body hbody h hctx]
  | .inclusion name indent, _, _, havoids, h, hctx => by
    rw [runInstr, runInstr]
    exact includePartial_agreesBut hload hnested h hctx name (havoids _ (.here List.mem_cons_self))

/-- In contexts that differ in the key only, instructions are carried out alike if they and all that
stands inside them avoid the key. -/
theorem runAll_agreesBut (hload : LoadsAvoiding key setting)
    (hnested : ∀ run ∈ nested, Nested.Ignores key run) :
    ∀ (is : List Instr) {ctx ctx' : Context}, (∀ j : Instr, j.Within is → j.Avoids key) →
      ctx.AgreesBut key ctx' → ctx.LambdaFree →
        runAll setting nested t ctx is = runAll setting nested t ctx' is
  | [], _, _, _, _, _ => by
    rw [runAll, runAll]
  | i :: is, _, _, havoids, h, hctx => by
    have hfirst : ∀ j : Instr, j.Within [i] → j.Avoids key := fun j hj =>
      havoids j (hj.mono (by simp))
    have hrest : ∀ j : Instr, j.Within is → j.Avoids key := fun j hj =>
      havoids j (hj.mono (List.subset_cons_self i is))
    rw [runAll, runAll, runInstr_agreesBut hload hnested i hfirst h hctx,
      runAll_agreesBut hload hnested is hrest h hctx]

end

/-- To every depth, templates that avoid the key are run alike in contexts that differ in the key
only. -/
theorem runTemplate_agreesBut (hload : LoadsAvoiding key setting) (depth : Nat) :
    Nested.Ignores key (runTemplate setting depth) := by
  induction depth with
  | zero =>
    intro t ctx ctx' ht h hctx
    exact runAll_agreesBut hload (by simp) t.program ht h hctx
  | succ depth ih =>
    intro t ctx ctx' ht h hctx
    have hnested : ∀ run ∈ some (runTemplate setting depth), Nested.Ignores key run := by
      rintro _ ⟨⟩
      exact ih
    exact runAll_agreesBut hload hnested t.program ht h hctx

end Render

/-! ## Views that differ in a key only -/

/-- Two views without lambdas that differ in the presence or the value of a key only. -/
structure Value.DifferAt (key : String) (entries entries' : List (String × Value)) : Prop where
  free : (map entries).LambdaFree
  free' : (map entries').LambdaFree
  others : ∀ other, other ≠ key → Dictionary.get? entries other = Dictionary.get? entries' other

/-- The names of all partials, behind every indent, avoid the key. -/
def PartialsAvoid (delimiters : Delimiters) (key : String) (partials : Dictionary String) : Prop :=
  ∀ name source, Dictionary.get? partials name = some source → ∀ indent, Text.IsIndent indent →
    Token.Avoids delimiters key (Template.indentLines indent source.toList)

namespace BareSession

variable {σ : Type} {b : BareSession σ} {key : String} {entries entries' : List (String × Value)}

/-- What a bare session loads avoids the key. -/
theorem loadsAvoiding_setting (h : PartialsAvoid b.delimiters key b.partials) (host : Host σ) :
    Render.LoadsAvoiding key (b.setting host) := by
  intro name indent hindent p t q hload
  change Render.freshTemplate b.delimiters b.partials name indent p = _ at hload
  rw [Render.freshTemplate_apply] at hload
  cases hsource : Dictionary.get? b.partials name with
  | none =>
    rw [hsource] at hload
    cases hload
  | some source =>
    have havoids := h name source hsource indent.toList hindent
    have htext : (Template.indented indent source).toList =
        Template.indentLines indent.toList source.toList := by
      rw [Template.indented, String.toList_ofList]
    rw [← htext] at havoids
    rw [hsource] at hload
    dsimp only at hload
    cases hcompile : Template.compile b.delimiters (Template.indented indent source) with
    | error e =>
      rw [hcompile] at hload
      cases hload
    | ok loaded =>
      rw [hcompile] at hload
      cases hload
      exact Template.avoids_of_compile havoids hcompile

/-- A template that avoids the key is rendered alike against views that differ in the key only. -/
theorem draw_of_avoids (h : PartialsAvoid b.delimiters key b.partials)
    (hviews : Value.DifferAt key entries entries') (host : Host σ) {t : Template}
    (ht : t.Avoids key) (sink : Sink) :
    b.draw host t (.map entries) sink = b.draw host t (.map entries') sink := by
  have hrun := Render.runTemplate_agreesBut (loadsAvoiding_setting h host) b.limit t
    (Context.ofView (.map entries)) (Context.ofView (.map entries')) ht
    (Context.agreesBut_ofView hviews.others) (Context.lambdaFree_ofView hviews.free)
  have hsame : t.render (b.setting host) (.map entries) =
      t.render (b.setting host) (.map entries') := hrun
  rw [draw, draw, hsame]

/-- A source whose names avoid the key is rendered alike against views that differ in the key
only. -/
theorem render_eq_of_avoids (h : PartialsAvoid b.delimiters key b.partials)
    (hviews : Value.DifferAt key entries entries') (host : Host σ) {source : String}
    (hsource : Token.Avoids b.delimiters key source.toList) :
    b.render host source (.map entries) = b.render host source (.map entries') := by
  rw [render, render, drawSource, drawSource]
  cases hcompile : Template.compile b.delimiters source with
  | error e => rfl
  | ok t =>
    dsimp only
    rw [b.draw_of_avoids h hviews host (Template.avoids_of_compile hsource hcompile)]

end BareSession

/-- The text that an engine has rendered, or its error. -/
def Engine.textOrError {σ : Type} :
    EStateM.Result Error (Activity σ) String → Except Error String
  | .ok text _ => .ok text
  | .error e _ => .error e

/-- After any requests, take a template and partials of which no variable, section or inverted
section is called the dot or begins with a key, behind whatever indent.  Against two views without
lambdas that differ in the presence or the value of this key only, the template is rendered to the
same text, or fails with the same error; so is what it compiles to, on every sink. -/
theorem Session.render_of_avoids {σ : Type} (host : Host σ) (delimiters : Delimiters)
    (limit : Nat) (init : σ) (history : List Request) (source key : String)
    (entries entries' : List (String × Value)) :
    let s := ((Session.start delimiters limit init).answerAll host history).2
    let a : Engine.Activity σ := ⟨s.engine, s.host, [], []⟩
    Token.Avoids delimiters key source.toList →
    PartialsAvoid delimiters key s.engine.partials →
    Value.DifferAt key entries entries' →
    Engine.textOrError (Engine.render host source (.map entries) a) =
      Engine.textOrError (Engine.render host source (.map entries') a) ∧
    ∀ t, s.engine.compile source = .ok t → ∀ sink, ∃ result a₁ a₂,
      Engine.draw host t (.map entries) sink a = .ok result a₁ ∧
      Engine.draw host t (.map entries') sink a = .ok result a₂ := by
  intro s a hsource hpartials hviews
  obtain ⟨b, hmirrors, hpair, -, -⟩ :=
    Session.exists_mirrors host delimiters limit init history
  rw [← hpair] at hsource
  rw [← hpair, hmirrors.partials] at hpartials
  constructor
  · obtain ⟨a₁, hfirst, -, -⟩ := hmirrors.render rfl host source (.map entries)
    obtain ⟨a₂, hsecond, -, -⟩ := hmirrors.render rfl host source (.map entries')
    rw [BareSession.render_eq_of_avoids hpartials hviews host hsource] at hfirst
    rw [hfirst, hsecond, Rendered.outcome, Rendered.outcome]
    cases (b.render host source (.map entries')).failure <;> rfl
  · intro t ht sink
    rw [Engine.compile, hmirrors.delimiters] at ht
    have havoids := Template.avoids_of_compile hsource ht
    obtain ⟨a₁, hfirst, -, -⟩ := hmirrors.draw rfl host t (.map entries) sink
    obtain ⟨a₂, hsecond, -, -⟩ := hmirrors.draw rfl host t (.map entries') sink
    rw [BareSession.draw_of_avoids hpartials hviews host havoids] at hfirst
    exact ⟨_, a₁, a₂, hfirst, hsecond⟩

/-- A key that is missing in one of the views, and is the second part of a name and the key of a
list item; the partial stands on an indented line. -/
theorem Session.render_of_avoids_second_part :
    let host : Host Unit := ⟨fun _ _ s => ("", s)⟩
    let partialSource := "\x7b\x7bn\x7d\x7d\n"
    let history : List Request := [.setPartials [("p", partialSource)]]
    let source :=
      "\x7b\x7b#l\x7d\x7d\n  \x7b\x7b>p\x7d\x7d\n\x7b\x7b/l\x7d\x7d\n\x7b\x7ba.k\x7d\x7d"
    let entries := [("a", Value.map [("k", .text "1")]), ("k", .text "2"),
      ("l", .list [.map [("k", .text "3"), ("n", .text "4")], .map [("n", .text "5")]])]
    let entries' := [("a", Value.map [("k", .text "1")]),
      ("l", .list [.map [("k", .text "3"), ("n", .text "4")], .map [("n", .text "5")]])]
    let s := ((Session.start .standard 64 ()).answerAll host history).2
    let a : Engine.Activity Unit := ⟨s.engine, s.host, [], []⟩
    Token.Avoids .standard "k" source.toList ∧
    PartialsAvoid .standard "k" s.engine.partials ∧
    Value.DifferAt "k" entries entries' ∧
    (Engine.textOrError (Engine.render host source (.map entries) a)).toOption =
      some "  4\n  5\n1" ∧
    Engine.textOrError (Engine.render host source (.map entries) a) =
      Engine.textOrError (Engine.render host source (.map entries') a) := by
  intro host partialSource history source entries entries' s a
  have hsource : Token.Avoids .standard "k" source.toList := by decide +kernel
  have hplain : Token.Avoids .standard "k" partialSource.toList := by decide +kernel
  have htokens : Token.ofSource .standard partialSource.toList =
      .ok ⟨[⟨.interpolation .escaped ⟨2, ['n']⟩, ⟨0, ['{', '{', 'n', '}', '}']⟩, true⟩,
        ⟨.text, ⟨5, ['\n']⟩, false⟩], .standard⟩ := by decide +kernel
  have hpartials : PartialsAvoid .standard "k" s.engine.partials := by
    intro name text hname indent hindent
    change Dictionary.get? [("p", partialSource)] name = some text at hname
    rw [Dictionary.get?_cons] at hname
    split at hname
    · cases hname
      refine hplain.indentLines ?_ hindent
      rw [htokens]
      rintro _ ⟨⟩ t ht name hsubject
      have hnames : ∀ t ∈
          [⟨.interpolation .escaped ⟨2, ['n']⟩, ⟨0, ['{', '{', 'n', '}', '}']⟩, true⟩,
            (⟨.text, ⟨5, ['\n']⟩, false⟩ : Token)], ∀ name ∈ t.kind.subject?, '\n' ∉ name.text := by
        decide
      exact hnames t ht name hsubject
    · cases hname
  have hviews : Value.DifferAt "k" entries entries' := by
    refine ⟨by simp [entries, Value.LambdaFree.text], by simp [entries', Value.LambdaFree.text], ?_⟩
    intro other hother
    simp only [entries, entries', Dictionary.get?_cons, if_neg hother]
  refine ⟨hsource, hpartials, hviews, by decide +kernel, ?_⟩
  exact (Session.render_of_avoids host .standard 64 () history source "k" entries entries' hsource
    hpartials hviews).1

end Mustache
