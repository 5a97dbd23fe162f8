import Mustache.Proofs.Bookkeeping
import Mustache.Proofs.Tiling

/-!
# Where a pair of markers is live

A set delimiter tag names a pair of markers that is live from its end on, up to the next
such tag or to the end of the text in which it stands.  No other text is read from this
pair, except the texts of lambdas: these start from the pair that is live at the end of
the text that holds their tag.  Partials start from the pair of the engine.

Main results:

- Theorem `Step.sets_iff`: where a set delimiter tag is read.
- Theorem `Scan.delimited_read`: the pair between whose markers each tag stands.
- Theorem `Stepwise.Moment.Reads.turn`: a turn keeps every text read from its own pair.
- Theorem `Session.pairs_of_texts`: the pairs of all texts of a session.
-/

namespace Mustache

variable {σ : Type}

/-! ## One tag -/

namespace Text

/-- A text without blanks is a word, unless it is empty. -/
theorem words_append_of_not_isBlank {word rest : List Char}
    (hword : ∀ c ∈ word, isBlank c = false) (hrest : EndsWord rest) :
    words (word ++ rest) = (if word = [] then [] else [word]) ++ words rest := by
  by_cases hne : word = []
  · rw [if_pos hne, hne]
    rfl
  · rw [if_neg hne]
    exact words_append_of_endsWord hne hword hrest

end Text

namespace Delimiters

/-- Two texts without blanks that stand in a body between blanks are the markers of the pair that
the body names. -/
theorem namedBy_iff {l r ws ws₁ ws₂ : List Char} {live : Delimiters}
    (hl : ∀ c ∈ l, Text.isBlank c = false) (hr : ∀ c ∈ r, Text.isBlank c = false)
    (hws : Text.AllBlank ws) (hws₁ : Text.AllBlank ws₁) (hne : ws₁ ≠ [])
    (hws₂ : Text.AllBlank ws₂) :
    NamedBy (ws ++ (l ++ (ws₁ ++ (r ++ ws₂)))) live ↔
      l = live.left.chars ∧ r = live.right.chars := by
  constructor
  · intro h
    have hwords := h.words
    have hrest := Text.words_append_of_allBlank hws₂ []
    rw [List.append_nil] at hrest
    rw [Text.words_append_of_allBlank hws,
      Text.words_append_of_not_isBlank hl (Text.endsWord_append hne hws₁ _),
      Text.words_append_of_allBlank hws₁,
      Text.words_append_of_not_isBlank hr (Text.endsWord_of_allBlank hws₂), hrest] at hwords
    by_cases hlnil : l = [] <;> by_cases hrnil : r = [] <;> simp_all [Text.words]
  · rintro ⟨rfl, rfl⟩
    exact ⟨ws, ws₁, ws₂, rfl, hne, hws, hws₁, hws₂⟩

/-- No equals sign stands in a body that names a pair. -/
theorem NamedBy.equals_not_mem {body : List Char} {pair : Delimiters} (h : NamedBy body pair) :
    '=' ∉ body := by
  obtain ⟨b₀, b₁, b₂, rfl, -, h₀, h₁, h₂⟩ := h
  have hblank : ∀ {b}, Text.AllBlank b → '=' ∉ b := fun hb hmem =>
    absurd (hb '=' hmem) (by decide)
  have hmarker : ∀ m : Marker, '=' ∉ m.chars := fun m hmem => (m.usable.2 '=' hmem).1 rfl
  simp only [List.mem_append, not_or]
  exact ⟨hblank h₀, hmarker _, hblank h₁, hmarker _, hblank h₂⟩

end Delimiters

namespace Step

/-- Where the pair is live and these texts follow, the first of them is read as one set delimiter
tag, behind which another pair is live. -/
def Sets (pair : Delimiters) (text rest : List Char) (live : Delimiters) : Prop :=
  ∃ body, read pair (text ++ rest) = .lexeme (.tag pair .equals body) live rest ∧
    (Lexeme.tag pair .equals body).chars = text

/-- A text between the markers of the pair and equals signs is a set delimiter tag exactly if it
names a pair, which is live behind it. -/
theorem sets_iff {pair live : Delimiters} {body rest : List Char} :
    Sets pair (pair.left.chars ++ '=' :: (body ++ '=' :: pair.right.chars)) rest live ↔
      Delimiters.NamedBy body live := by
  constructor
  · rintro ⟨body', hread, hchars⟩
    have hbody : body' = body := by
      have hsame : pair.left.chars ++ ('=' :: (body' ++ '=' :: pair.right.chars)) =
          pair.left.chars ++ ('=' :: (body ++ '=' :: pair.right.chars)) := hchars
      simpa using hsame
    subst hbody
    rcases cases_of_read_eq_lexeme hread with ⟨htext, -⟩ | ⟨sigil, body, htag, hlive⟩
    · cases htext
    · cases htag
      rcases hlive with ⟨-, hnamed⟩ | ⟨hsigil, -⟩
      · exact hnamed
      · exact absurd rfl hsigil
  · intro h
    refine ⟨body, ?_, rfl⟩
    have hbreak : Text.breakOn ('=' :: pair.right.chars)
        (body ++ ('=' :: pair.right.chars ++ rest)) = some (body, rest) :=
      Text.breakOn_append_of_not_mem h.equals_not_mem rest
    have htext : (pair.left.chars ++ '=' :: (body ++ '=' :: pair.right.chars)) ++ rest =
        pair.left.chars ++ ('=' :: (body ++ ('=' :: pair.right.chars ++ rest))) := by
      simp
    have hsigil : ∀ cs, Sigil.read ('=' :: cs) = (.equals, cs) := fun _ => rfl
    have hterminator : Sigil.terminator .equals pair = '=' :: pair.right.chars := rfl
    rw [htext, read_left_append, hsigil, readTag, hterminator, hbreak]
    dsimp only
    rw [if_pos rfl, Delimiters.ofBody?_eq_some_iff.2 h]

end Step

/-! ## The tags of a source -/

namespace Lexeme

/-- The pair that a set delimiter tag names. -/
def named? : Lexeme → Option Delimiters
  | tag _ .equals body => Delimiters.ofBody? body
  | _ => none

/-- The pair that is named last, or the one at the start if none is named. -/
def lastNamed (start : Delimiters) (ls : List Lexeme) : Delimiters :=
  (ls.reverse.findSome? named?).getD start

theorem lastNamed_cons (start : Delimiters) (l : Lexeme) (ls : List Lexeme) :
    lastNamed start (l :: ls) = lastNamed (l.named?.getD start) ls := by
  unfold lastNamed
  rw [List.reverse_cons, List.findSome?_append, List.findSome?_singleton]
  cases ls.reverse.findSome? named? <;> rfl

end Lexeme

/-- Each tag stands between the markers of the pair that was named last in front of it, and each set
delimiter tag names a pair. -/
structure Scan.Delimited (start : Delimiters) (ls : List Lexeme) : Prop where
  pair : ∀ before pair sigil body after, ls = before ++ .tag pair sigil body :: after →
    pair = Lexeme.lastNamed start before
  named : ∀ pair body, .tag pair .equals body ∈ ls → ∃ next, Delimiters.NamedBy body next

/-- A step leaves the pair live that its lexeme names, if it names any. -/
theorem Step.live_eq_of_read_eq_lexeme {pair live : Delimiters} {cs rest : List Char} {l : Lexeme}
    (h : read pair cs = .lexeme l live rest) : live = l.named?.getD pair := by
  rcases cases_of_read_eq_lexeme h with ⟨rfl, -, rfl, -⟩ |
    ⟨sigil, body, rfl, ⟨rfl, hnamed⟩ | ⟨hsigil, rfl⟩⟩
  · rfl
  · rw [Lexeme.named?, Delimiters.ofBody?_eq_some_iff.2 hnamed]
    rfl
  · cases sigil <;> first | rfl | exact absurd rfl hsigil

namespace Scan

/-- A source is read tag by tag, each between the markers of the pair that was named last. -/
theorem delimited_read (pair : Delimiters) (cs : List Char) :
    Delimited pair (read pair cs).lexemes := by
  fun_induction read pair cs with
  | case1 pair cs ending hstep =>
    refine ⟨?_, ?_⟩
    · intro before p sigil body after h
      simp at h
    · rintro p body ⟨⟩
  | case2 pair cs l next rest hstep ih =>
    have hnext := Step.live_eq_of_read_eq_lexeme hstep
    refine ⟨?_, ?_⟩
    · intro before p sigil body after h
      rcases List.cons_eq_append_iff.1 h with ⟨rfl, hl⟩ | ⟨before', rfl, hrest⟩
      · obtain ⟨rfl, -⟩ := List.cons.inj hl
        rcases Step.cases_of_read_eq_lexeme hstep with ⟨htext, -⟩ | ⟨sigil', body', htag, -⟩
        · cases htext
        · cases htag
          rfl
      · rw [Lexeme.lastNamed_cons, ← hnext]
        exact ih.pair before' p sigil body after hrest
    · intro p body h
      rcases List.mem_cons.1 h with rfl | h
      · rcases Step.cases_of_read_eq_lexeme hstep with ⟨htext, -⟩ | ⟨sigil', body', htag, hlive⟩
        · cases htext
        · cases htag
          rcases hlive with ⟨-, hnamed⟩ | ⟨hsigil, -⟩
          · exact ⟨next, hnamed⟩
          · exact absurd rfl hsigil
      · exact ih.named p body h

/-- At the end of a source, the pair is live that was named last. -/
theorem live_eq_of_read_eq_finished {pair live : Delimiters} {cs : List Char}
    (h : (read pair cs).ending = .finished live) :
    live = Lexeme.lastNamed pair (read pair cs).lexemes := by
  fun_induction read pair cs with
  | case1 pair cs ending hstep =>
    obtain rfl : ending = .finished live := h
    exact (Step.eq_nil_of_read_eq_finished hstep).2
  | case2 pair cs l next rest hstep ih =>
    rw [ih h, cons, Lexeme.lastNamed_cons, ← Step.live_eq_of_read_eq_lexeme hstep]

end Scan

/-- A compiled template comes from the tags of its source, which are all there is besides the texts
between them, and has the pair that was named last. -/
theorem Template.ofSource_of_compile {pair : Delimiters} {source : String} {t : Template}
    (h : compile pair source = .ok t) :
    (Scan.read pair source.toList).lexemes.flatMap Lexeme.chars = source.toList ∧
    Token.ofSource pair source.toList =
      .ok ⟨Token.ofLexemes 0 true (Scan.read pair source.toList).lexemes, t.live⟩ ∧
    t.live = Lexeme.lastNamed pair (Scan.read pair source.toList).lexemes := by
  unfold compile at h
  split at h
  · rename_i nodes live htree
    cases h
    obtain ⟨stream, hstream, rfl, -⟩ := exists_of_tree_eq_ok htree
    obtain ⟨hending, htokens⟩ := Token.ofScan_eq_ok hstream
    refine ⟨Scan.flatMap_chars_read hending, ?_, Scan.live_eq_of_read_eq_finished hending⟩
    rw [hstream, ← htokens]
  · cases h

/-! ## Texts inside texts -/

namespace Stepwise

/-- A template that is being read and those around it from the inside outwards.  The outermost one
and every partial are compiled from the pair of the engine, and the text of a lambda from the pair
that is live at the end of the template that holds its tag. -/
inductive CompiledIn (delimiters : Delimiters) (partials : Dictionary String) :
    Template → List Frame → Prop
  | outermost {t : Template} (compiled : Template.compile delimiters t.source = .ok t) :
      CompiledIn delimiters partials t []
  | inclusion {t : Template} {name indent source : String} {outer : Page} {frames : List Frame}
      (stored : Dictionary.get? partials name = some source)
      (compiled : Template.compile delimiters (Template.indented indent source) = .ok t)
      (around : CompiledIn delimiters partials outer.template frames) :
      CompiledIn delimiters partials t (⟨.inclusion name t.source, outer⟩ :: frames)
  | expansion {t : Template} {aside : Option (Escaping × Sink)} {outer : Page}
      {frames : List Frame}
      (compiled : Template.compile outer.template.live t.source = .ok t)
      (around : CompiledIn delimiters partials outer.template frames) :
      CompiledIn delimiters partials t (⟨.expansion aside, outer⟩ :: frames)

/-- The sources that hold the tags of lambdas inside each other, up to a partial or to the outermost
template. -/
def holders : List Frame → List String
  | [] => []
  | ⟨.inclusion _ _, _⟩ :: _ => []
  | ⟨.expansion _, outer⟩ :: frames => outer.template.source :: holders frames

/-- The pair that is live behind sources that hold each other, of which the last one is read from
the pair at the start. -/
def pairBehind (start : Delimiters) : List String → Except Error Delimiters
  | [] => .ok start
  | source :: outer =>
    (pairBehind start outer).bind fun pair => (Template.compile pair source).map Template.live

variable {delimiters : Delimiters} {partials : Dictionary String} {t : Template}
  {frames : List Frame}

/-- The template of a text depends on the text itself and on the texts that hold it, and on no other
one. -/
theorem CompiledIn.compile_pairBehind (h : CompiledIn delimiters partials t frames) :
    (pairBehind delimiters (holders frames)).bind
      (fun pair => Template.compile pair t.source) = .ok t := by
  induction h with
  | outermost compiled => exact compiled
  | inclusion _ compiled _ _ =>
    rw [Template.source_of_compile compiled]
    exact compiled
  | @expansion t aside outer frames compiled _ ih =>
    show ((pairBehind delimiters (holders frames)).bind fun pair =>
      (Template.compile pair outer.template.source).map Template.live).bind _ = _
    cases hpair : pairBehind delimiters (holders frames) with
    | error e =>
      rw [hpair] at ih
      cases ih
    | ok pair =>
      rw [hpair] at ih
      replace ih : Template.compile pair outer.template.source = .ok outer.template := ih
      show ((Template.compile pair outer.template.source).map Template.live).bind _ = _
      rw [ih]
      exact compiled

/-- All that is being read at a moment has been compiled from its own pair, and so have the partials
that are kept. -/
structure Moment.Reads (delimiters : Delimiters) (partials : Dictionary String)
    (m : Moment σ) : Prop where
  compiled : CompiledIn delimiters partials m.page.template m.frames
  kept : m.progress.compiled.Faithful delimiters partials

end Stepwise

/-- Keeping partials faithfully survives everything that a rendering of the engine does. -/
theorem Engine.maintains_faithful (e : Engine) (host : Host σ) :
    (e.setting host).Maintains fun compiled _ => compiled.Faithful e.delimiters e.partials :=
  maintains_setting (fun _ _ _ _ h => h) (fun _ _ _ _ _ _ _ _ h => h)
    (fun _ _ _ _ _ _ hstored hcompile h => h.add hstored hcompile) (fun _ _ _ h => h) host

/-- A partial is loaded, kept or not, as it is compiled from the pair of the engine. -/
theorem Engine.exists_load_eq {e : Engine} {p : Progress σ}
    (h : p.compiled.Faithful e.delimiters e.partials) (host : Host σ) {name source : String}
    (indent : String) (hstored : Dictionary.get? e.partials name = some source) :
    ∃ q, (e.setting host).load name indent p =
      match Template.compile e.delimiters (Template.indented indent source) with
      | .ok t => .ok (some t) q
      | .error failure => .error failure q := by
  show ∃ q, Render.partialTemplate e.delimiters e.partials name indent p = _
  rw [Render.partialTemplate_apply]
  cases hfind : p.compiled.find? name indent with
  | some t =>
    obtain ⟨present, hpresent, hcompile⟩ := h name indent t hfind
    rw [hstored] at hpresent
    cases hpresent
    refine ⟨p, ?_⟩
    rw [hcompile]
  | none =>
    rw [hstored]
    dsimp only
    rw [Render.compilePartial_apply]
    dsimp only
    cases Template.compile e.delimiters (Template.indented indent source) with
    | ok t => exact ⟨_, rfl⟩
    | error failure => exact ⟨_, rfl⟩

/-- What is loaded under a name is compiled from the source of this name. -/
theorem Engine.of_load_eq {e : Engine} {host : Host σ} {p q : Progress σ} {name indent : String}
    {t : Template} (h : p.compiled.Faithful e.delimiters e.partials)
    (hload : (e.setting host).load name indent p = .ok (some t) q) :
    ∃ source, Dictionary.get? e.partials name = some source ∧
      Template.compile e.delimiters (Template.indented indent source) = .ok t := by
  cases hstored : Dictionary.get? e.partials name with
  | some source =>
    obtain ⟨q', heq⟩ := exists_load_eq h host indent hstored
    rw [heq] at hload
    cases hcompile : Template.compile e.delimiters (Template.indented indent source) with
    | ok inner =>
      rw [hcompile] at hload
      cases hload
      exact ⟨source, rfl, hcompile⟩
    | error failure =>
      rw [hcompile] at hload
      cases hload
  | none =>
    change Render.partialTemplate e.delimiters e.partials name indent p = _ at hload
    rw [Render.partialTemplate_apply] at hload
    cases hfind : p.compiled.find? name indent with
    | some inner =>
      obtain ⟨source, hsource, -⟩ := h name indent inner hfind
      rw [hstored] at hsource
      cases hsource
    | none =>
      rw [hfind, hstored] at hload
      cases hload

/-- An effect that leaves a partial has loaded it. -/
theorem Render.exists_load_of_perform {s : Setting σ} {effect : Effect} {p q : Progress σ}
    {name : String} {t : Template}
    (h : perform s effect p = .ok (some (.inclusion name t)) q) :
    ∃ indent, s.load name indent p = .ok (some t) q := by
  cases effect with
  | write pieces =>
    change EStateM.bind (emitAll pieces) _ p = _ at h
    unfold EStateM.bind at h
    split at h <;> cases h
  | refuse finding => cases h
  | ask call capture =>
    have hanswer : Insertion.ofAnswer? capture (s.host.answer call.lambda call.argument p.host).1 =
        some (.inclusion name t) := (EStateM.Result.ok.inj h).1
    unfold Insertion.ofAnswer? at hanswer
    split at hanswer <;> cases hanswer
  | load name' indent =>
    change EStateM.bind (mapError (Error.blame name') (s.load name' indent)) _ p = _ at h
    unfold EStateM.bind mapError at h
    cases hload : s.load name' indent p with
    | error e q' =>
      rw [hload] at h
      cases h
    | ok found q' =>
      rw [hload] at h
      cases found with
      | none => cases h
      | some inner =>
        cases h
        exact ⟨indent, hload⟩

namespace Stepwise

variable {e : Engine} {host : Host σ} {m m' : Moment σ}

/-- A template that is opened has been compiled from its own pair. -/
theorem Moment.Reads.compiledIn_of_enter (h : m.Reads e.delimiters e.partials)
    {insertion : Insertion} {ctx : Context} {k : Moment σ}
    (hmove : m.move (e.setting host) = .opens insertion ctx k)
    (henter : k.enter ctx insertion = .goes m') :
    CompiledIn e.delimiters e.partials m'.page.template m'.frames := by
  obtain ⟨hframes, htemplate⟩ := eq_of_move_opens hmove
  have haround : CompiledIn e.delimiters e.partials k.page.template k.frames := by
    rw [hframes, htemplate]
    exact h.compiled
  cases insertion with
  | inclusion name inner =>
    obtain ⟨i, rest, effect, q, -, -, hperform⟩ := exists_of_move_opens hmove
    obtain ⟨indent, hload⟩ := Render.exists_load_of_perform hperform
    cases henter
    obtain ⟨source, hstored, hcompile⟩ := Engine.of_load_eq h.kept hload
    exact .inclusion hstored hcompile haround
  | expansion capture text =>
    unfold Moment.enter at henter
    dsimp only at henter
    split at henter
    · cases henter
    · rename_i inner hcompile
      cases henter
      have hsource := Template.source_of_compile hcompile
      exact .expansion (hsource.symm ▸ hcompile) haround

/-- A turn keeps every text read from its own pair. -/
theorem Moment.Reads.turn (h : m.Reads e.delimiters e.partials) {bound : Option Nat}
    (hturn : m.turn (e.setting host) bound = .goes m') : m'.Reads e.delimiters e.partials := by
  have hkept := satisfies_turn (e.maintains_faithful host) h.kept bound
  rw [hturn] at hkept
  refine ⟨?_, hkept⟩
  rcases turn_cases hturn with ⟨hframes, htemplate⟩ | ⟨f, hframes, hpage⟩ |
    ⟨insertion, ctx, k, hmove, henter, -⟩
  · rw [hframes, htemplate]
    exact h.compiled
  · have hcompiled := h.compiled
    rw [hframes] at hcompiled
    rw [hpage]
    cases hcompiled with
    | inclusion _ _ around => exact around
    | expansion _ around => exact around
  · exact h.compiledIn_of_enter hmove henter

/-- Throughout a rendering, every text is read from its own pair. -/
theorem Walk.reads {bound : Option Nat} (h : Walk (e.setting host) bound m m')
    (hm : m.Reads e.delimiters e.partials) : m'.Reads e.delimiters e.partials := by
  induction h with
  | refl => exact hm
  | tail _ hturn ih => exact ih.turn hturn

/-- What reading texts inside texts comes to at a moment: each text has been compiled from its own
pair, a partial is loaded as it is compiled from the pair of the engine, and the text of a lambda is
compiled from the pair that is live at the end of the template that holds its tag. -/
structure Moment.OwnPairs (host : Host σ) (e : Engine) (m : Moment σ) : Prop where
  compiled : CompiledIn e.delimiters e.partials m.page.template m.frames
  /-- The text that is being read depends on the texts that hold it, and on no other one. -/
  held : (pairBehind e.delimiters (holders m.frames)).bind
    (fun pair => Template.compile pair m.page.template.source) = .ok m.page.template
  loads : ∀ name indent source, Dictionary.get? e.partials name = some source →
    ∃ q, (e.setting host).load name indent m.progress =
      match Template.compile e.delimiters (Template.indented indent source) with
      | .ok t => .ok (some t) q
      | .error failure => .error failure q
  expands : ∀ ctx capture text k, m.move (e.setting host) = .opens (.expansion capture text) ctx k →
    match Template.compile m.page.template.live text with
    | .ok t => ∃ m', k.enter ctx (.expansion capture text) = .goes m' ∧ m'.page.template = t
    | .error failure =>
      ∃ b, k.enter ctx (.expansion capture text) = .fails b ∧ b.error = failure

theorem Moment.Reads.ownPairs (h : m.Reads e.delimiters e.partials) (host : Host σ) :
    m.OwnPairs host e where
  compiled := h.compiled
  held := h.compiled.compile_pairBehind
  loads _ indent _ hstored := Engine.exists_load_eq h.kept host indent hstored
  expands ctx capture text k hmove := by
    obtain ⟨-, htemplate⟩ := eq_of_move_opens hmove
    rw [← htemplate]
    unfold Moment.enter
    dsimp only
    cases Template.compile k.page.template.live text with
    | ok t => exact ⟨_, rfl, rfl⟩
    | error failure => exact ⟨_, rfl, rfl⟩

end Stepwise

/-! ## Sessions -/

namespace Session

variable {s : Session σ} {b : BareSession σ}

/-- A template that is drawn has been compiled from the pair of the engine, and the engine keeps
nothing that is outdated. -/
theorem Represents.of_draws (h : s.Represents b) {r : Request} {t : Template} {view : Value}
    {sink : Sink} {a : Engine.Activity σ} (hdraws : s.Draws r t view sink a) :
    a.engine.delimiters = b.delimiters ∧ a.engine.Faithful ∧
      Template.compile b.delimiters t.source = .ok t := by
  have hengine := h.engine
  cases hdraws with
  | @source source _ partials _ _ _ _ found =>
    have hprepared : (s.prepared partials).Mirrors (b.replacing partials) := by
      cases partials with
      | none => exact hengine
      | some partials =>
        exact ⟨hengine.delimiters, hengine.limit, rfl, hengine.host, hengine.faithful.setPartials _⟩
    have hpair : (b.replacing partials).delimiters = b.delimiters := by
      cases partials <;> rfl
    obtain ⟨a', -, hmirrors, htemplate⟩ := hprepared.templateOf source
    rw [hpair, found] at htemplate
    cases hcompile : Template.compile b.delimiters source with
    | error e =>
      rw [hcompile] at htemplate
      cases htemplate
    | ok t' =>
      rw [hcompile] at htemplate
      cases htemplate
      rw [Template.source_of_compile hcompile]
      exact ⟨hmirrors.delimiters.trans hpair, hmirrors.faithful, hcompile⟩
  | named _ found =>
    obtain ⟨source, hcompile⟩ := h.exists_compile_eq found
    rw [Template.source_of_compile hcompile]
    exact ⟨hengine.delimiters, hengine.faithful, hcompile⟩

/-- Every set delimiter tag takes effect exactly, and in its own text only.  Between the markers of
the live pair and equals signs, two texts without blanks are read as one set delimiter tag exactly
if they make a pair, and this pair is live behind it.  A source that compiles is put together from
its tags and the texts between them, each tag stands between the markers of the pair that was named
last in front of it, and the template has the pair that was named last of all.  In every rendering
of a session, the outermost template and every partial are read from the pair of the engine, the
text of a lambda is read from the pair at the end of the template that holds its tag, and no other
text has an effect on how a text is read. -/
theorem pairs_of_texts :
    (∀ (pair : Delimiters) (l r ws ws₁ ws₂ rest : List Char),
      (∀ c ∈ l, Text.isBlank c = false) → (∀ c ∈ r, Text.isBlank c = false) →
      Text.AllBlank ws → Text.AllBlank ws₁ → ws₁ ≠ [] → Text.AllBlank ws₂ →
      let text := pair.left.chars ++ '=' :: ((ws ++ (l ++ (ws₁ ++ (r ++ ws₂)))) ++
        '=' :: pair.right.chars)
      ((∃ live, Step.Sets pair text rest live) ↔ (Delimiters.ofMarkers? l r).isSome) ∧
      ∀ live, Step.Sets pair text rest live → live.left.chars = l ∧ live.right.chars = r) ∧
    (∀ (pair : Delimiters) (source : String) (t : Template),
      Template.compile pair source = .ok t →
      let ls := (Scan.read pair source.toList).lexemes
      ls.flatMap Lexeme.chars = source.toList ∧
      Token.ofSource pair source.toList = .ok ⟨Token.ofLexemes 0 true ls, t.live⟩ ∧
      Scan.Delimited pair ls ∧ t.live = Lexeme.lastNamed pair ls) ∧
    ∀ {σ : Type} (host : Host σ) (delimiters : Delimiters) (limit : Nat) (init : σ)
      (history : List Request),
      let s := ((start delimiters limit init).answerAll host history).2
      ∀ r t view sink a, s.Draws r t view sink a →
        let setting := a.engine.setting host
        let first := Stepwise.Moment.start t view (a.begin sink)
        a.engine.delimiters = delimiters ∧
        (∃ last, Stepwise.Walk setting (some a.engine.limit) first last ∧
          (last.turn setting (some a.engine.limit)).outcome? =
            some (t.render setting view (a.begin sink))) ∧
        ∀ m, Stepwise.Walk setting (some a.engine.limit) first m → m.OwnPairs host a.engine := by
  refine ⟨?_, ?_, ?_⟩
  · intro pair l r ws ws₁ ws₂ rest hl hr hws hws₁ hne hws₂ text
    have hsets : ∀ live, Step.Sets pair text rest live ↔
        l = live.left.chars ∧ r = live.right.chars := fun live =>
      Step.sets_iff.trans (Delimiters.namedBy_iff hl hr hws hws₁ hne hws₂)
    refine ⟨?_, fun live h => ⟨((hsets live).1 h).1.symm, ((hsets live).1 h).2.symm⟩⟩
    rw [Option.isSome_iff_exists]
    exact exists_congr fun live => (hsets live).trans Delimiters.ofMarkers?_eq_some_iff.symm
  · intro pair source t h
    obtain ⟨hchars, htokens, hlive⟩ := Template.ofSource_of_compile h
    exact ⟨hchars, htokens, Scan.delimited_read pair source.toList, hlive⟩
  · intro σ host delimiters limit init history s r t view sink a hdraws setting first
    obtain ⟨-, hlast⟩ := (represents_start delimiters limit init).answerAll host history
    obtain ⟨hdelimiters, hfaithful, hcompile⟩ := hlast.of_draws hdraws
    rw [BareSession.delimiters_answerAll] at hdelimiters hcompile
    refine ⟨hdelimiters, Stepwise.exists_walk_render setting t view (a.begin sink), ?_⟩
    intro m hwalk
    have hfirst : first.Reads a.engine.delimiters a.engine.partials := by
      refine ⟨.outermost ?_, hfaithful.compiled⟩
      rw [hdelimiters]
      exact hcompile
    exact (hwalk.reads hfirst).ownPairs host

/-- A source sets other delimiters than a partial in it does.  The partial is read from the pair of
the engine, and the text of a lambda behind it from the pair of the source. -/
theorem pairs_of_texts_nested :
    let angles : Delimiters := ⟨⟨['<', '%'], by decide⟩, ⟨['%', '>'], by decide⟩⟩
    let bars : Delimiters := ⟨⟨['|'], by decide⟩, ⟨['|'], by decide⟩⟩
    let source := "\x7b\x7b=<% %>=\x7d\x7d<%>p%><%f%>"
    let t : Template := ⟨source, angles, [.inclusion "p" "",
      .interpolation .escaped (Reference.ofName ⟨19, ['f']⟩)]⟩
    let view : Value := .map [("f", .lambda ⟨0, .interpolation⟩)]
    let host : Host Unit := ⟨fun _ _ u => ("<%x%>", u)⟩
    let s := ((start .standard 64 ()).answerAll host
      [.addPartial "p" "\x7b\x7b=| |=\x7d\x7d|x|"]).2
    let a : Engine.Activity Unit := { s.prepared none with
      engine := { s.engine with templates := Dictionary.insert source t s.engine.templates }
      events := [.compilingTemplate (Event.sizeOf source)] }
    let first := Stepwise.Moment.start t view (a.begin .empty)
    let after := fun n => first.after (a.engine.setting host) (some 64) n
    (∃ live, Step.Sets .standard "\x7b\x7b= <% %>=\x7d\x7d".toList ['.'] live) ∧
    (∀ live, Step.Sets .standard "\x7b\x7b= <% %>=\x7d\x7d".toList ['.'] live →
      live.left.chars = ['<', '%'] ∧ live.right.chars = ['%', '>']) ∧
    Template.compile .standard source = .ok t ∧
    Scan.Delimited .standard (Scan.read .standard source.toList).lexemes ∧
    s.Draws (.render source (.direct view)) t view .empty a ∧
    (∀ n, (after n).OwnPairs host a.engine) ∧
    (after 1).page.template.live = bars ∧ (after 4).page.template.live = angles ∧
      (after 4).nesting = 1 := by
  intro angles bars source t view host s a first after
  let tokens : List Token :=
    [⟨.setDelimiters, ⟨0, ['{', '{', '=', '<', '%', ' ', '%', '>', '=', '}', '}']⟩, true⟩,
      ⟨.inclusion ⟨14, ['p']⟩ [], ⟨11, ['<', '%', '>', 'p', '%', '>']⟩, false⟩,
      ⟨.interpolation .escaped ⟨19, ['f']⟩, ⟨17, ['<', '%', 'f', '%', '>']⟩, false⟩]
  have hstream : Token.ofSource .standard source.toList = .ok ⟨tokens, t.live⟩ := by decide +kernel
  have hsettle : Token.settle tokens = tokens := by decide +kernel
  have hnested : Node.ofTokens (Token.settle tokens) =
      .ok [.inclusion ⟨14, ['p']⟩ [] ⟨11, ['<', '%', '>', 'p', '%', '>']⟩,
        .interpolation .escaped ⟨19, ['f']⟩ ⟨17, ['<', '%', 'f', '%', '>']⟩] := by
    rw [hsettle]
    rfl
  have hcompile : Template.compile .standard source = .ok t :=
    Template.compile_of_ofTokens hstream hnested
  have hdraws : s.Draws (.render source (.direct view)) t view .empty a :=
    .source rfl (by decide) (Engine.templateOf_of_compile rfl hcompile)
  obtain ⟨htag, hsource, hsession⟩ := pairs_of_texts
  have hleft : ∀ c ∈ ['<', '%'], Text.isBlank c = false := fun c hc => (angles.left.usable.2 c hc).2
  have hright : ∀ c ∈ ['%', '>'], Text.isBlank c = false :=
    fun c hc => (angles.right.usable.2 c hc).2
  have hblank : Text.AllBlank [' '] := by decide
  obtain ⟨hread, hpair⟩ := htag .standard ['<', '%'] ['%', '>'] [' '] [' '] [] ['.'] hleft hright
    hblank hblank (by decide) (by decide)
  obtain ⟨-, -, hdelimited, -⟩ := hsource .standard source t hcompile
  obtain ⟨-, -, hmoments⟩ := hsession host .standard 64 ()
    [.addPartial "p" "\x7b\x7b=| |=\x7d\x7d|x|"] _ t view .empty a hdraws
  exact ⟨hread.2 rfl, hpair, hcompile, hdelimited, hdraws,
    fun n => hmoments _ (Stepwise.walk_after _ _ n first), by decide +kernel, by decide +kernel,
    by decide +kernel⟩

end Session

end Mustache
