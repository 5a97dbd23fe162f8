import Mustache.Proofs.Brackets
import Mustache.Proofs.IndentedLines
import Mustache.Proofs.LambdaFree

/-!
# Only the contents of tokens count

Two sources may be written with other markers, with other blanks inside their tags and
with other comments, and still be cut into tokens with the same contents.  Whether a
token begins a line, which lines are standalone, what an indent makes of the source and
how sections nest is then the same, so both sources are rendered to the same text.

Main results:

- Theorem `Token.forall₂_sameContent_ofLexemes`: tokens of the same kinds, names and texts
  begin lines together.
- Theorem `Token.AlikeSources.indentLines`: alike sources are alike after indenting.
- Theorem `Evaluation.agree_ofTree`: trees with the same contents agree, to every depth.
- Theorem `Session.render_of_alike`: so do renderings of alike sources.
-/

namespace Mustache

open Text Template

/-! ## Tokens with the same contents -/

/-- Renaming sees nothing of a name but its text. -/
theorem TokenKind.rename_outline (f : List Char → List Char) (kind : TokenKind) :
    (kind.outline .contents).rename f = kind.rename f := by
  cases kind <;> rfl

/-- A kind has the contents of text only if it is text. -/
theorem TokenKind.outline_eq_text_iff {o : Outline} {kind : TokenKind} :
    kind.outline o = .text ↔ kind = .text := by
  cases kind <;> simp [outline]

namespace Token

/-- The tokens are of the same kind.  Names have the same text, wherever they stand, and so do
tokens of text. -/
structure Alike (t t' : Token) : Prop where
  kind : t.kind.outline .contents = t'.kind.outline .contents
  text : t.kind = .text → t.whole.text = t'.whole.text

instance (t t' : Token) : Decidable (Alike t t') :=
  decidable_of_iff (t.kind.outline .contents = t'.kind.outline .contents ∧
      (t.kind = .text → t.whole.text = t'.whole.text))
    ⟨fun h => ⟨h.1, h.2⟩, fun h => ⟨h.kind, h.text⟩⟩

/-- The tokens have the same contents. -/
def SameContent (t t' : Token) : Prop :=
  t.outline .contents = t'.outline .contents

namespace Alike

variable {t t' : Token}

theorem kind_eq_text_iff (h : Alike t t') : t.kind = .text ↔ t'.kind = .text := by
  rw [← TokenKind.outline_eq_text_iff (o := .contents), h.kind, TokenKind.outline_eq_text_iff]

/-- Alike tokens have the same contents if they begin a line together. -/
theorem sameContent (h : Alike t t') (hflag : t.beginsLine = t'.beginsLine) :
    SameContent t t' := by
  unfold SameContent
  by_cases htext : t.kind = .text
  · have htext' := h.kind_eq_text_iff.1 htext
    simp [outline, htext, htext', Outline.contents, h.text htext, hflag]
  · have htext' : t'.kind ≠ .text := fun h' => htext (h.kind_eq_text_iff.2 h')
    rw [outline_of_kind_ne_text _ htext, outline_of_kind_ne_text _ htext', h.kind, hflag]
    rfl

end Alike

/-- Lexemes whose tokens are alike end a line together: texts are the same, and tags end none. -/
theorem endsLine_of_alike {l l' : Lexeme} {start start' : Nat} {flag flag' : Bool}
    (h : Alike ⟨kindOfLexeme start l, ⟨start, l.chars⟩, flag⟩
      ⟨kindOfLexeme start' l', ⟨start', l'.chars⟩, flag'⟩) :
    l.endsLine = l'.endsLine := by
  by_cases htext : kindOfLexeme start l = .text
  · have hchars : l.chars = l'.chars := h.text htext
    rw [Lexeme.endsLine, Lexeme.endsLine, hchars]
  · have htext' : kindOfLexeme start' l' ≠ .text := fun h' => htext (h.kind_eq_text_iff.2 h')
    cases l with
    | text chars => exact absurd rfl htext
    | tag pair sigil body =>
      cases l' with
      | text chars => exact absurd rfl htext'
      | tag pair' sigil' body' => simp

/-- Tokens that are alike one by one have the same contents: they begin lines together. -/
theorem forall₂_sameContent_ofLexemes {ls ls' : List Lexeme} {start start' : Nat}
    {beginsLine : Bool}
    (h : List.Forall₂ Alike (ofLexemes start beginsLine ls) (ofLexemes start' beginsLine ls')) :
    List.Forall₂ SameContent (ofLexemes start beginsLine ls)
      (ofLexemes start' beginsLine ls') := by
  induction ls generalizing ls' start start' beginsLine with
  | nil =>
    cases ls' with
    | nil => exact .nil
    | cons l' ls' => cases h
  | cons l ls ih =>
    cases ls' with
    | nil => cases h
    | cons l' ls' =>
      rw [ofLexemes, ofLexemes, List.forall₂_cons] at h
      obtain ⟨hfirst, hrest⟩ := h
      have hends := endsLine_of_alike hfirst
      rw [Lexeme.endsLine, Lexeme.endsLine] at hends
      rw [hends] at hrest
      rw [ofLexemes, ofLexemes, hends]
      exact .cons (hfirst.sameContent rfl) (ih hrest)

/-- What a token becomes behind an indent is told by its contents. -/
theorem SameContent.behindIndent_eq {t t' : Token} (h : SameContent t t') (w : List Char) :
    behindIndent w t = behindIndent w t' := by
  obtain ⟨u, hu, hkind, hflag, htext⟩ := exists_outline Outline.keepsText_contents t
  obtain ⟨u', hu', hkind', hflag', htext'⟩ := exists_outline Outline.keepsText_contents t'
  obtain rfl : u = u' := by
    rw [SameContent, hu, hu'] at h
    exact Option.some.inj h
  have hflags : t.beginsLine = t'.beginsLine := hflag.symm.trans hflag'
  have hkinds : t.kind.outline .contents = t'.kind.outline .contents := hkind.symm.trans hkind'
  by_cases ht : t.kind = .text
  · have ht' : t'.kind = .text := by
      rw [← TokenKind.outline_eq_text_iff (o := .contents), ← hkinds,
        TokenKind.outline_eq_text_iff, ht]
    rw [behindIndent_of_kind_eq_text ht, behindIndent_of_kind_eq_text ht', hflags, ← htext ht,
      htext' ht']
  · have ht' : t'.kind ≠ .text := by
      rwa [Ne, ← TokenKind.outline_eq_text_iff (o := .contents), ← hkinds,
        TokenKind.outline_eq_text_iff]
    rw [behindIndent_of_kind_ne_text ht, behindIndent_of_kind_ne_text ht', hflags,
      ← TokenKind.rename_outline, hkinds, TokenKind.rename_outline]

/-- Tokens with the same contents one by one have the same contents, also behind an indent. -/
theorem sameContents_of_forall₂ {ts ts' : List Token} (h : List.Forall₂ SameContent ts ts') :
    SameContents ts ts' ∧
      ∀ w, ts.flatMap (behindIndent w) = ts'.flatMap (behindIndent w) := by
  induction h with
  | nil => exact ⟨rfl, fun _ => rfl⟩
  | cons hfirst _ ih =>
    obtain ⟨hcontents, hbehind⟩ := ih
    constructor
    · rw [SameContent] at hfirst
      rw [SameContents] at hcontents ⊢
      rw [List.filterMap_cons, List.filterMap_cons, hfirst, hcontents]
    · intro w
      rw [List.flatMap_cons, List.flatMap_cons, hfirst.behindIndent_eq, hbehind]

/-! ## Alike sources -/

/-- The sources are read, each from its own pair of markers, as tokens that are alike one by
one. -/
def AlikeSources (pair : Delimiters) (source : List Char) (pair' : Delimiters)
    (source' : List Char) : Prop :=
  ∃ stream stream', ofSource pair source = .ok stream ∧ ofSource pair' source' = .ok stream' ∧
    List.Forall₂ Alike stream.tokens stream'.tokens

instance (pair : Delimiters) (source : List Char) (pair' : Delimiters) (source' : List Char) :
    Decidable (AlikeSources pair source pair' source') :=
  match h : ofSource pair source, h' : ofSource pair' source' with
  | .ok stream, .ok stream' =>
    decidable_of_iff (List.Forall₂ Alike stream.tokens stream'.tokens)
      (by simp [AlikeSources, h, h'])
  | .error _, _ => .isFalse (by simp [AlikeSources, h])
  | _, .error _ => .isFalse (by simp [AlikeSources, h'])

/-- Alike sources are read as tokens with the same contents, behind every indent. -/
theorem AlikeSources.indentLines {pair pair' : Delimiters} {source source' : List Char}
    (h : AlikeSources pair source pair' source') {w : List Char} (hw : IsIndent w) :
    ∃ stream stream', ofSource pair (Template.indentLines w source) = .ok stream ∧
      ofSource pair' (Template.indentLines w source') = .ok stream' ∧
      SameContents stream.tokens stream'.tokens := by
  obtain ⟨stream, stream', hsource, hsource', halike⟩ := h
  have hsame : List.Forall₂ SameContent stream.tokens stream'.tokens := by
    rw [(ofScan_eq_ok hsource).2, (ofScan_eq_ok hsource').2] at halike ⊢
    exact forall₂_sameContent_ofLexemes halike
  obtain ⟨hcontents, hbehind⟩ := sameContents_of_forall₂ hsame
  by_cases hne : w = []
  · rw [hne, indentLines_nil, indentLines_nil]
    exact ⟨stream, stream', hsource, hsource', hcontents⟩
  · obtain ⟨tokens, htokens, hindented⟩ := exists_ofSource_indentLines hne hw hsource
    obtain ⟨tokens', htokens', hindented'⟩ := exists_ofSource_indentLines hne hw hsource'
    refine ⟨_, _, htokens, htokens', ?_⟩
    rw [SameContents, hindented, hindented', hbehind]

end Token

/-! ## Trees -/

/-- No flaw of nesting concerns a value. -/
theorem Node.kind_ne_format_of_ofTokens {ts : List Token} {flaw : Flaw}
    (h : ofTokens ts = .error flaw) : flaw.kind ≠ .format := by
  have hcheck := ofTokens_check ts
  rw [h] at hcheck
  cases Bracket.check_eq_error_iff.1 hcheck.symm <;> simp [Flaw.kind, Fault.kind]

/-- The indents in the tree of a source are blanks of one line. -/
theorem Template.isIndent_of_tree {pair live : Delimiters} {source : List Char}
    {nodes : List Node} (h : tree pair source = .ok (nodes, live)) :
    Node.Everywhere (Node.IndentHas IsIndent) nodes := by
  obtain ⟨stream, hstream, -, hnodes⟩ := exists_of_tree_eq_ok h
  refine (Node.ofTokens_eq_ok_iff.1 hnodes).everywhere ?_ fun _ _ _ _ _ => trivial
  intro t ht n hleaf
  unfold Token.leaf? at hleaf
  split at hleaf
  · cases hleaf
    trivial
  · cases hleaf
    trivial
  · rename_i name indent hkind
    cases hleaf
    obtain ⟨line, hline, hmem⟩ := List.mem_flatMap.1 ht
    have hunindented : Token.Unindented line := fun t ht =>
      Token.unindented_of_ofSource hstream t (Token.mem_of_mem_lines hline ht)
    rw [Token.settleLine_eq hunindented] at hmem
    have hblank := Token.blank_of_mem_settledLine hstream hline hmem hkind
    exact ⟨fun c hc => (hblank c hc).1, fun hc => (hblank _ hc).2 rfl⟩
  · cases hleaf

/-- Two failures are of the same kind, and equal if they concern a value. -/
def Failure.Like (f f' : Failure) : Prop :=
  f.kind = f'.kind ∧ (f.kind = .format → f = f')

/-- A failure of that kind shows the name of a value without a text. -/
theorem Failure.exists_of_kind_eq_format {f : Failure} (h : f.kind = .format) :
    ∃ found name, f = .flawed (.notRenderable found) name := by
  cases f with
  | flawed fault excerpt =>
    cases fault with
    | notRenderable found => exact ⟨found, excerpt, rfl⟩
    | _ => cases h
  | includeLimit limit => cases h

theorem Failure.Like.refl (f : Failure) : f.Like f :=
  ⟨rfl, fun _ => rfl⟩

/-- Two trees of which the nodes have the same contents, and the indents are blanks of one line. -/
structure Tree.Alike (tree tree' : Tree) : Prop where
  contents : Node.outlineAll .contents tree.nodes = Node.outlineAll .contents tree'.nodes
  indents : Node.Everywhere (Node.IndentHas IsIndent) tree.nodes

/-- Tokens with the same contents give trees that are alike, or failures that are. -/
theorem Tree.ofSource_cases {pair pair' : Delimiters} {source source' : List Char}
    {stream stream' : Token.Stream} (hsource : Token.ofSource pair source = .ok stream)
    (hsource' : Token.ofSource pair' source' = .ok stream')
    (h : Token.SameContents stream.tokens stream'.tokens) :
    (∃ tree tree', ofSource pair source = .ok tree ∧ ofSource pair' source' = .ok tree' ∧
      tree.Alike tree') ∨
    ∃ f f', ofSource pair source = .error f ∧ ofSource pair' source' = .error f' ∧ f.Like f' := by
  have hsettled := congrArg Token.settle h
  rw [Token.settle_outline Outline.keepsText_contents,
    Token.settle_outline Outline.keepsText_contents] at hsettled
  have htrees := Node.withKind_ofTokens_of_outline_eq hsettled
  cases hnodes : Node.ofTokens (Token.settle stream.tokens) with
  | ok ns =>
    left
    obtain ⟨ns', hnodes'⟩ := (exists_eq_ok_iff_of_withKind_map_eq htrees).1 ⟨ns, hnodes⟩
    rw [hnodes, hnodes'] at htrees
    have htree := Template.tree_of_ofTokens hsource hnodes
    have htree' := Template.tree_of_ofTokens hsource' hnodes'
    refine ⟨⟨source, ns, stream.live⟩, ⟨source', ns', stream'.live⟩, ?_, ?_, ?_⟩
    · rw [ofSource, htree]
    · rw [ofSource, htree']
    · exact ⟨Except.ok.inj htrees, Template.isIndent_of_tree htree⟩
  | error flaw =>
    right
    cases hnodes' : Node.ofTokens (Token.settle stream'.tokens) with
    | ok ns' =>
      rw [hnodes, hnodes'] at htrees
      cases htrees
    | error flaw' =>
      rw [hnodes, hnodes'] at htrees
      have hkind : flaw.kind = flaw'.kind := Except.error.inj htrees
      have htree : Template.tree pair source = .error flaw := by
        simp [Template.tree, hsource, hnodes, Except.bind, Except.map]
      have htree' : Template.tree pair' source' = .error flaw' := by
        simp [Template.tree, hsource', hnodes', Except.bind, Except.map]
      refine ⟨_, _, by rw [ofSource, htree], by rw [ofSource, htree'], ?_⟩
      constructor
      · exact hkind
      · intro hformat
        exact absurd hformat (Node.kind_ne_format_of_ofTokens hnodes)

/-! ## Evaluation -/

/-- Two worlds with the same limit and with alike partials of the same names. -/
structure World.Alike {σ : Type} (w w' : World σ) : Prop where
  limit : w.limit = w'.limit
  partials : ∀ name, Option.Rel
    (fun source source' : String =>
      Token.AlikeSources w.delimiters source.toList w'.delimiters source'.toList)
    (Dictionary.get? w.partials name) (Dictionary.get? w'.partials name)

namespace Evaluation

variable {σ : Type} {w w' : World σ}

/-- Evaluations of trees inside the current ones agree on alike trees, or both limits are
reached. -/
abbrev InnerAlike : Option (Inner σ) → Option (Inner σ) → Prop :=
  Option.Rel fun evaluate evaluate' => ∀ tree tree' : Tree, tree.Alike tree' →
    ∀ ctx : Context, ctx.LambdaFree →
      Agree Failure.Like (evaluate tree ctx) (evaluate' tree' ctx)

/-- Inclusions behind the same indent agree if trees inside do. -/
theorem inclusionsAgree_of_alike (hw : w.Alike w') {inner inner' : Option (Inner σ)}
    (hinner : InnerAlike inner inner') :
    InclusionsAgree IsIndent Failure.Like w w' inner inner' := by
  intro ctx hctx name indent hindent
  have hpartials := hw.partials name
  unfold inclusion
  generalize Dictionary.get? w.partials name = found at hpartials ⊢
  generalize Dictionary.get? w'.partials name = found' at hpartials ⊢
  cases hpartials with
  | none => exact .pure []
  | some halike =>
    obtain ⟨stream, stream', hsource, hsource', hcontents⟩ := halike.indentLines hindent
    rcases Tree.ofSource_cases hsource hsource' hcontents with
      ⟨tree, tree', htree, htree', htrees⟩ | ⟨f, f', hf, hf', hlike⟩
    · simp only [htree, htree']
      cases hinner with
      | none =>
        rw [hw.limit]
        exact .throw (.refl _)
      | some hevaluate => exact hevaluate tree tree' htrees ctx hctx
    · simp only [hf, hf']
      exact .throw hlike

/-- Alike trees agree if trees inside them do. -/
theorem agree_ofTree_of_inner (hw : w.Alike w') {depth : Nat}
    (hinner : InnerAlike (innerAt w depth) (innerAt w' depth)) {tree tree' : Tree}
    (htree : tree.Alike tree') {ctx : Context} (hctx : ctx.LambdaFree) :
    Agree Failure.Like (ofTree w depth tree ctx) (ofTree w' depth tree' ctx) := by
  have hfirst : Agree Failure.Like (nodes w (innerAt w depth) tree ctx tree.nodes)
      (nodes w' (innerAt w' depth) tree' ctx (Node.outlineAll .contents tree.nodes)) :=
    agree_nodes Failure.Like.refl (inclusionsAgree_of_alike hw hinner) ctx hctx tree.nodes
      htree.indents
  have hsecond : nodes w' (innerAt w' depth) tree' ctx tree'.nodes =
      nodes w' (innerAt w' depth) tree' ctx (Node.outlineAll .contents tree'.nodes) :=
    (agree_nodes_contents (asksNothing_of_mem_innerAt w' depth) hctx tree' tree' _).eq
  rw [ofTree_eq_nodes, ofTree_eq_nodes, hsecond, ← htree.contents]
  exact hfirst

/-- Alike trees agree, to every depth. -/
theorem agree_ofTree (hw : w.Alike w') (depth : Nat) {tree tree' : Tree}
    (htree : tree.Alike tree') {ctx : Context} (hctx : ctx.LambdaFree) :
    Agree Failure.Like (ofTree w depth tree ctx) (ofTree w' depth tree' ctx) := by
  induction depth generalizing tree tree' ctx with
  | zero => exact agree_ofTree_of_inner hw .none htree hctx
  | succ depth ih =>
    have hinner : InnerAlike (innerAt w (depth + 1)) (innerAt w' (depth + 1)) :=
      .some fun _ _ htrees _ hctx => ih htrees hctx
    exact agree_ofTree_of_inner hw hinner htree hctx

/-- Alike sources agree. -/
theorem agree_ofTemplate (hw : w.Alike w') {source source' : String}
    (h : Token.AlikeSources w.delimiters source.toList w'.delimiters source'.toList)
    {view : Value} (hview : view.LambdaFree) :
    Agree Failure.Like (ofTemplate w source view) (ofTemplate w' source' view) := by
  have hctx := Context.lambdaFree_ofView hview
  have hnoIndent : IsIndent [] := ⟨nofun, nofun⟩
  obtain ⟨stream, stream', hsource, hsource', hcontents⟩ := h.indentLines hnoIndent
  rw [indentLines_nil] at hsource hsource'
  unfold ofTemplate
  rcases Tree.ofSource_cases hsource hsource' hcontents with
    ⟨tree, tree', htree, htree', htrees⟩ | ⟨f, f', hf, hf', hlike⟩
  · simp only [htree, htree', hw.limit]
    exact agree_ofTree hw w'.limit htrees hctx
  · simp only [hf, hf']
    exact .throw hlike

end Evaluation

/-! ## Rendering -/

/-- Two engines may have started with other markers, been asked other things before and have other
hosts.  If they have the same limit and alike partials of the same names, then alike sources are
rendered to the same text against a view without lambdas, or with errors of the same kind.  Where
the error is about a value without a text, it is about the same name. -/
theorem Session.render_of_alike {σ : Type} (host host' : Host σ) (pair pair' : Delimiters)
    (limit limit' : Nat) (init init' : σ) (history history' : List Request)
    (source source' : String) (view : Value) :
    let s := ((Session.start pair limit init).answerAll host history).2
    let s' := ((Session.start pair' limit' init').answerAll host' history').2
    s.engine.limit = s'.engine.limit →
    (∀ name, Option.Rel
      (fun text text' : String => Token.AlikeSources pair text.toList pair' text'.toList)
      (Dictionary.get? s.engine.partials name) (Dictionary.get? s'.engine.partials name)) →
    Token.AlikeSources pair source.toList pair' source'.toList → view.LambdaFree →
    match Engine.render host source view ⟨s.engine, s.host, [], []⟩,
      Engine.render host' source' view ⟨s'.engine, s'.host, [], []⟩ with
    | .ok text _, .ok text' _ => text = text'
    | .error e _, .error e' _ => e.kind = e'.kind ∧ (e.kind = .format →
        ∃ found name, e.failure? = some (.flawed (.notRenderable found) name) ∧
          e'.failure? = some (.flawed (.notRenderable found) name))
    | _, _ => False := by
  intro s s' hlimit hpartials hsource hview
  let w : World σ := ⟨pair, s.engine.partials, s.engine.limit, host⟩
  let w' : World σ := ⟨pair', s'.engine.partials, s'.engine.limit, host'⟩
  have hw : w.Alike w' := ⟨hlimit, hpartials⟩
  obtain ⟨a, hrender⟩ := Session.render_of_evaluation host pair limit init history source view
  obtain ⟨a', hrender'⟩ :=
    Session.render_of_evaluation host' pair' limit' init' history' source' view
  rcases Evaluation.agree_ofTemplate hw hsource hview with
    ⟨text, htext, htext'⟩ | ⟨f, f', hlike, hf, hf'⟩
  · rw [htext] at hrender
    rw [htext'] at hrender'
    rw [hrender, hrender']
  · rw [hf] at hrender
    rw [hf'] at hrender'
    obtain ⟨e, he, herror⟩ := hrender
    obtain ⟨e', he', herror'⟩ := hrender'
    rw [herror, herror']
    obtain ⟨hkind, hsame⟩ := hlike
    constructor
    · rw [Error.kind_of_failure? he, Error.kind_of_failure? he', hkind]
    · intro hformat
      rw [Error.kind_of_failure? he] at hformat
      obtain rfl := hsame hformat
      obtain ⟨found, name, rfl⟩ := Failure.exists_of_kind_eq_format hformat
      exact ⟨found, name, he, he'⟩

/-- A list with an indented partial, written with braces and a comment, and with other markers and
other blanks. -/
theorem Session.render_of_alike_markers :
    let host : Host Unit := ⟨fun _ _ s => ("", s)⟩
    let pair : Delimiters := ⟨⟨['<', '|'], by decide⟩, ⟨['|', '>'], by decide⟩⟩
    let history : List Request := [.setPartials [("p", "\x7b\x7b a.b \x7d\x7d,\n")]]
    let history' : List Request := [.setPartials [("p", "<|a.b|>,\n")]]
    let source := "\x7b\x7b! items \x7d\x7d\x7b\x7b#xs\x7d\x7d\n \x7b\x7b>p\x7d\x7d\n\x7b\x7b/ xs\x7d\x7d"
    let source' := "<|!|><|# xs |>\n <|> p|>\n<|/xs|>"
    let view : Value := .map [("xs", .list [.map [("a", .map [("b", .bool true)])]])]
    let s := ((Session.start .standard 64 ()).answerAll host history).2
    let s' := ((Session.start pair 64 ()).answerAll host history').2
    s.engine.limit = s'.engine.limit ∧
    (∀ name, Option.Rel
      (fun text text' : String => Token.AlikeSources .standard text.toList pair text'.toList)
      (Dictionary.get? s.engine.partials name) (Dictionary.get? s'.engine.partials name)) ∧
    Token.AlikeSources .standard source.toList pair source'.toList ∧ view.LambdaFree ∧
    match Engine.render host source view ⟨s.engine, s.host, [], []⟩,
      Engine.render host source' view ⟨s'.engine, s'.host, [], []⟩ with
    | .ok text _, .ok text' _ => text = " true,\n" ∧ text' = " true,\n"
    | _, _ => False := by
  intro host pair history history' source source' view s s'
  have hlimit : s.engine.limit = s'.engine.limit := rfl
  have hpartials : ∀ name, Option.Rel
      (fun text text' : String => Token.AlikeSources .standard text.toList pair text'.toList)
      (Dictionary.get? s.engine.partials name) (Dictionary.get? s'.engine.partials name) := by
    intro name
    show Option.Rel _ (Dictionary.get? [("p", "\x7b\x7b a.b \x7d\x7d,\n")] name)
      (Dictionary.get? [("p", "<|a.b|>,\n")] name)
    rw [Dictionary.get?_cons, Dictionary.get?_cons]
    by_cases hname : name = "p"
    · rw [if_pos hname, if_pos hname]
      exact .some (by decide +kernel)
    · rw [if_neg hname, if_neg hname]
      exact .none
  have hsource : Token.AlikeSources .standard source.toList pair source'.toList := by
    decide +kernel
  have hview : view.LambdaFree := by
    simp [view]
  have hrender := Session.render_of_alike host host .standard pair 64 64 () () history history'
    source source' view hlimit hpartials hsource hview
  refine ⟨hlimit, hpartials, hsource, hview, ?_⟩
  have houtcome : Engine.textOrKind (Engine.render host source view ⟨s.engine, s.host, [], []⟩) =
      .ok " true,\n" := by decide +kernel
  revert hrender houtcome
  generalize Engine.render host source view ⟨s.engine, s.host, [], []⟩ = outcome
  generalize Engine.render host source' view ⟨s'.engine, s'.host, [], []⟩ = outcome'
  intro hrender houtcome
  cases outcome with
  | error e a => cases houtcome
  | ok text a =>
    obtain rfl : text = " true,\n" := Except.ok.inj houtcome
    cases outcome' with
    | error e a' => exact hrender.elim
    | ok text' a' => exact ⟨rfl, hrender.symm⟩

end Mustache
