import Mustache.Proofs.Indentation
import Mustache.Proofs.LambdaFree
import Mustache.Proofs.Reading

/-!
# Sources in a row

A source that ends a line is read as before when another source follows it: no
marker and no line reaches over the newline.  What follows is read as it would be
read alone, only at another place.  So the tree of both is the tree of the first
followed by that of the second.

Main results:

- Theorem `Scan.read_append`: the lexemes of the first source, then those of the second.
- Theorem `Node.ofTokens_append`: tokens behind a finished tree are nested by themselves.
- Theorem `Template.exists_tree_append`: the tree of two sources in a row.
- Theorem `Session.render_append`: two sources in a row are rendered one after the other,
  if the view has no lambdas.
-/

namespace Mustache

/-! ## Reading -/

namespace Text

/-- The first occurrence in a text is the first one whatever follows the text. -/
theorem FirstAt.append_right {marker text before after : List Char}
    (h : FirstAt marker text before after) (ys : List Char) :
    FirstAt marker (text ++ ys) before (after ++ ys) := by
  refine ⟨by rw [h.eq]; simp, ?_⟩
  intro b a hb
  by_contra hlt
  have hlength : (b ++ marker).length ≤ text.length := by
    rw [h.eq]
    simp only [List.length_append]
    omega
  have hprefix : b ++ marker <+: text ++ ys := ⟨a, by rw [hb, List.append_assoc]⟩
  obtain ⟨a', ha'⟩ := List.prefix_of_prefix_length_le hprefix (List.prefix_append text ys) hlength
  have hle := h.first b a' (by rw [← ha', List.append_assoc])
  omega

end Text

/-- A newline ends a line in every rest of a text. -/
theorem EndsLine.of_append {xs ys : List Char} (h : EndsLine (xs ++ ys)) : EndsLine ys := by
  by_cases hys : ys = []
  · simp [hys, EndsLine]
  · intro c hc
    have hlast := (endsLine_append_iff hys).1 h
    rw [hc] at hlast
    exact Option.some.inj hlast

namespace Step

variable {cs : List Char}

/-- No marker reaches over the end of a line. -/
theorem isPrefixOf_append (m : Marker) (hne : cs ≠ []) (hends : EndsLine cs) (ys : List Char) :
    m.chars.isPrefixOf (cs ++ ys) = m.chars.isPrefixOf cs := by
  rw [Bool.eq_iff_iff, List.isPrefixOf_iff_prefix, List.isPrefixOf_iff_prefix]
  constructor
  · intro hprefix
    by_cases hlength : m.chars.length ≤ cs.length
    · exact List.prefix_of_prefix_length_le hprefix (List.prefix_append cs ys) hlength
    · have hinside : cs <+: m.chars :=
        List.prefix_of_prefix_length_le (List.prefix_append cs ys) hprefix (by omega)
      have hlast := hends _ (List.getLast?_eq_some_getLast hne)
      have hnewline : '\n' ∈ m.chars := hinside.subset (hlast ▸ List.getLast_mem hne)
      exact absurd hnewline m.isSolid.newline_not_mem
  · exact fun hprefix => hprefix.trans (List.prefix_append cs ys)

/-- A run of text does not go over the end of a line. -/
theorem textRun_append_right (m : Marker) (hne : cs ≠ []) (hends : EndsLine cs) (ys : List Char) :
    textRun m.chars (cs ++ ys) =
      ((textRun m.chars cs).1, (textRun m.chars cs).2 ++ ys) := by
  induction cs with
  | nil => exact absurd rfl hne
  | cons c cs ih =>
    have hprefix := isPrefixOf_append m hne hends ys
    rw [List.cons_append] at hprefix ⊢
    rw [textRun, textRun, hprefix]
    split
    · rfl
    · rename_i hc
      split
      · rfl
      · have hcs : cs ≠ [] := by
          rintro rfl
          exact hc (hends c rfl)
        have hrest : EndsLine ([c] ++ cs) := hends
        rw [ih hcs hrest.of_append]

/-- A tag that is closed is read whatever follows. -/
theorem readTag_append {pair live : Delimiters} {sigil : Sigil} {inner rest : List Char}
    {l : Lexeme} (h : readTag pair sigil inner = .lexeme l live rest) (ys : List Char) :
    readTag pair sigil (inner ++ ys) = .lexeme l live (rest ++ ys) := by
  unfold readTag at h ⊢
  cases hfound : Text.breakOn (sigil.terminator pair) inner with
  | none =>
    rw [hfound] at h
    cases h
  | some found =>
    obtain ⟨body, rest'⟩ := found
    have hboth := (Text.breakOn_eq_some_iff.1 hfound).append_right ys
    rw [hfound] at h
    rw [Text.breakOn_eq_some_iff.2 hboth]
    by_cases hequals : sigil = .equals
    · simp only [if_pos hequals] at h ⊢
      cases hbody : Delimiters.ofBody? body <;> rw [hbody] at h <;> cases h
      rfl
    · simp only [if_neg hequals] at h ⊢
      cases h
      rfl

/-- What stands at the beginning of a text that ends a line is read whatever follows. -/
theorem read_append {pair live : Delimiters} {rest : List Char} {l : Lexeme}
    (h : read pair cs = .lexeme l live rest) (hends : EndsLine cs) (ys : List Char) :
    read pair (cs ++ ys) = .lexeme l live (rest ++ ys) := by
  cases cs with
  | nil => cases h
  | cons c cs =>
    have hne : c :: cs ≠ [] := by simp
    have hprefix := isPrefixOf_append pair.left hne hends ys
    have hrun := textRun_append_right pair.left hne hends ys
    rw [List.cons_append] at hprefix hrun ⊢
    rw [read] at h ⊢
    rw [hrun, hprefix]
    split
    · rename_i hp
      rw [if_pos hp] at h
      obtain ⟨inner, hinner⟩ := List.isPrefixOf_iff_prefix.1 hp
      rw [← List.cons_append, ← hinner, List.append_assoc, List.drop_left]
      rw [← hinner, List.drop_left] at h
      -- Something follows the left marker, since the tag is closed.
      cases inner with
      | nil =>
        have hnone : Text.breakOn (Sigil.terminator .plain pair) [] = none := by
          simp [Text.breakOn, Sigil.terminator, pair.right.usable.1]
        change readTag pair .plain [] = _ at h
        rw [readTag, hnone] at h
        cases h
      | cons d ds =>
        have hsigil : Sigil.read (d :: ds ++ ys) =
            ((Sigil.read (d :: ds)).1, (Sigil.read (d :: ds)).2 ++ ys) := by
          simp only [List.cons_append, Sigil.read]
          cases Sigil.ofChar? d <;> rfl
        rw [hsigil]
        exact readTag_append h ys
    · rename_i hp
      rw [if_neg hp] at h
      cases h
      rfl

end Step

namespace Scan

/-- Two sources in a row, of which the first ends a line: the lexemes of the first one, then those
that are read from the second one under the pair that is live there. -/
theorem read_append {pair live : Delimiters} {cs : List Char} (hends : EndsLine cs)
    (h : (read pair cs).ending = .finished live) (ys : List Char) :
    read pair (cs ++ ys) = (read live ys).prepend (read pair cs).lexemes := by
  fun_induction read pair cs with
  | case1 pair cs ending hstep =>
    obtain rfl : ending = .finished live := h
    obtain ⟨rfl, rfl⟩ := Step.eq_nil_of_read_eq_finished hstep
    rfl
  | case2 pair cs l next rest hstep ih =>
    have hrest : EndsLine rest := by
      rw [(Step.append_of_read_eq_lexeme hstep).1] at hends
      exact hends.of_append
    rw [read_of_lexeme (Step.read_append hstep hends ys), ih hrest h]
    rfl

end Scan

/-! ## Tokens -/

namespace Token

/-- What stands behind lexemes that end a line begins one. -/
theorem flagBehind_of_endsLine {ls : List Lexeme} (hne : ∀ l ∈ ls, l.chars ≠ [])
    (hends : EndsLine (ls.flatMap Lexeme.chars)) {beginsLine : Bool}
    (hflag : ls = [] → beginsLine = true) : flagBehind beginsLine ls = true := by
  induction ls generalizing beginsLine with
  | nil => exact hflag rfl
  | cons l ls ih =>
    rw [List.flatMap_cons] at hends
    refine ih (fun l' hl' => hne l' (List.mem_cons_of_mem _ hl')) hends.of_append ?_
    rintro rfl
    have hlast : EndsLine ([] ++ l.chars) := by simpa using hends
    rw [endsLine_append_iff (hne l List.mem_cons_self)] at hlast
    simp [hlast]

/-- The contents of tokens do not depend on their places. -/
theorem sameContents_ofLexemes (start start' : Nat) (beginsLine : Bool) (ls : List Lexeme) :
    SameContents (ofLexemes start beginsLine ls) (ofLexemes start' beginsLine ls) := by
  have hsame : ∀ (l : Lexeme) (s s' : Nat) (b : Bool),
      outline .contents ⟨kindOfLexeme s l, ⟨s, l.chars⟩, b⟩ =
        outline .contents ⟨kindOfLexeme s' l, ⟨s', l.chars⟩, b⟩ := by
    intro l s s' b
    cases l with
    | text chars => rfl
    | tag pair sigil body => cases sigil <;> rfl
  induction ls generalizing start start' beginsLine with
  | nil => rfl
  | cons l ls ih =>
    have hrest := ih (start + Text.byteLength l.chars) (start' + Text.byteLength l.chars)
      (l.chars.getLast? == some '\n')
    unfold SameContents at hrest ⊢
    rw [ofLexemes, ofLexemes, List.filterMap_cons, List.filterMap_cons, hsame l start start']
    dsimp only [Fragment.stop]
    rw [hrest]

/-- Lines are settled one by one, so tokens that begin a line are settled by themselves. -/
theorem settle_append {ys : List Token} (h : ∀ t ∈ ys.head?, t.beginsLine = true)
    (xs : List Token) : settle (xs ++ ys) = settle xs ++ settle ys := by
  have hlines : lines (xs ++ ys) = lines xs ++ lines ys := by
    apply List.splitBy_append
    intro x _ y hy
    simp [h y hy]
  rw [settle, hlines, List.flatMap_append]
  rfl

end Token

/-! ## Nesting over finished nodes -/

/-- Open sections in a body that has more nodes before them. -/
def OpenSection.onto (below : List Node) : List OpenSection → List OpenSection
  | [] => []
  | [s] => [{ s with before := s.before ++ below }]
  | s :: t :: outer => s :: onto below (t :: outer)

namespace Nesting

/-- A nesting in a body that has more nodes before it. -/
def onto (below : List Node) (n : Nesting) : Nesting where
  opened := OpenSection.onto below n.opened
  nodes := if n.opened = [] then n.nodes ++ below else n.nodes

variable (below : List Node)

theorem onto_push (n : Nesting) (node : Node) :
    (n.onto below).push node = (n.push node).onto below := by
  by_cases h : n.opened = [] <;> simp [onto, push, h]

/-- Closing a section does not ask for the nodes before the sections. -/
theorem close_onto (n : Nesting) (name closing : Fragment) :
    (n.onto below).close name closing = (n.close name closing).map fun m => m.onto below := by
  obtain ⟨opened, nodes⟩ := n
  cases opened with
  | nil => rfl
  | cons s outer =>
    by_cases h : s.name.text = name.text
    · cases outer <;> simp [onto, OpenSection.onto, close, h, Except.map]
    · cases outer <;> simp [onto, OpenSection.onto, close, h, Except.map]

/-- Taking up a token does not ask for the nodes before the sections. -/
theorem step_onto (n : Nesting) (t : Token) :
    (n.onto below).step t = (n.step t).map fun m => m.onto below := by
  unfold step
  cases t.kind with
  | text => exact congrArg Except.ok (onto_push below n _)
  | interpolation => exact congrArg Except.ok (onto_push below n _)
  | inclusion => exact congrArg Except.ok (onto_push below n _)
  | comment => rfl
  | setDelimiters => rfl
  | sectionOpen polarity name =>
    obtain ⟨opened, nodes⟩ := n
    cases opened <;> simp [onto, OpenSection.onto, Except.map]
  | sectionClose name => exact close_onto below n name t.whole

/-- Nor does taking up tokens one after the other. -/
theorem run_onto (n : Nesting) (ts : List Token) :
    (n.onto below).run ts = (n.run ts).map fun m => m.onto below := by
  induction ts generalizing n with
  | nil => rfl
  | cons t ts ih =>
    rw [run, step_onto, run]
    cases n.step t with
    | error flaw => rfl
    | ok next => exact ih next

/-- The finished tree has the nodes before the sections at its beginning. -/
theorem finish_onto (n : Nesting) :
    (n.onto below).finish = n.finish.map fun ns => below.reverse ++ ns := by
  obtain ⟨opened, nodes⟩ := n
  cases opened with
  | nil => simp [onto, OpenSection.onto, finish, Except.map]
  | cons s outer => cases outer <;> rfl

end Nesting

/-- Tokens behind a finished tree are nested by themselves. -/
theorem Node.ofTokens_append {xs : List Token} {ns : List Node} (h : ofTokens xs = .ok ns)
    (ys : List Token) : ofTokens (xs ++ ys) = (ofTokens ys).map fun ms => ns ++ ms := by
  rw [ofTokens] at h
  rw [ofTokens, ofTokens, Nesting.run_append]
  cases hrun : Nesting.empty.run xs with
  | error flaw =>
    rw [hrun] at h
    cases h
  | ok n =>
    rw [hrun] at h
    obtain ⟨opened, nodes⟩ := n
    cases opened with
    | cons s outer => cases h
    | nil =>
      obtain rfl : nodes.reverse = ns := Except.ok.inj h
      have honto : (⟨[], nodes⟩ : Nesting) = Nesting.empty.onto nodes := rfl
      show (Nesting.run ⟨[], nodes⟩ ys).bind Nesting.finish = _
      rw [honto, Nesting.run_onto]
      cases Nesting.empty.run ys with
      | error flaw => rfl
      | ok m => exact Nesting.finish_onto nodes m

/-! ## Trees -/

/-- The tokens of two sources in a row, of which the first ends a line under the starting pair. -/
theorem Token.exists_ofSource_append {pair : Delimiters} {xs ys : List Char} {first second : Stream}
    (hxs : ofSource pair xs = .ok first) (hlive : first.live = pair)
    (hys : ofSource pair ys = .ok second) (hends : EndsLine xs) :
    ∃ tokens, ofSource pair (xs ++ ys) = .ok ⟨first.tokens ++ tokens, second.live⟩ ∧
      SameContents second.tokens tokens ∧ ∀ t ∈ tokens.head?, t.beginsLine = true := by
  obtain ⟨hfinished, hfirst⟩ := ofScan_eq_ok hxs
  obtain ⟨hfinished', hsecond⟩ := ofScan_eq_ok hys
  rw [hlive] at hfinished
  have hchars := Scan.flatMap_chars_read hfinished
  have hne := Scan.chars_ne_nil_of_mem pair xs
  have hflag : flagBehind true (Scan.read pair xs).lexemes = true :=
    flagBehind_of_endsLine hne (by rw [hchars]; exact hends) fun _ => rfl
  refine ⟨ofLexemes (0 + Text.byteLength ((Scan.read pair xs).lexemes.flatMap Lexeme.chars)) true
    (Scan.read pair ys).lexemes, ?_, ?_, ?_⟩
  · rw [ofSource, Scan.read_append hends hfinished, ofScan]
    simp only [Scan.prepend, hfinished', liveAtEnd, Except.map]
    rw [ofLexemes_append, hflag, hfirst]
  · rw [hsecond]
    exact sameContents_ofLexemes ..
  · intro t ht
    cases hls : (Scan.read pair ys).lexemes with
    | nil =>
      rw [hls] at ht
      cases ht
    | cons l ls =>
      rw [hls] at ht
      cases ht
      rfl

/-- The tree of two sources in a row, of which the first ends a line under the starting pair, is the
tree of the first and one that has the contents of the tree of the second. -/
theorem Template.exists_tree_append {pair live : Delimiters} {xs ys : List Char}
    {ms ns : List Node} (hxs : tree pair xs = .ok (ms, pair)) (hys : tree pair ys = .ok (ns, live))
    (hends : EndsLine xs) :
    ∃ ns', tree pair (xs ++ ys) = .ok (ms ++ ns', live) ∧
      Node.outlineAll .contents ns' = Node.outlineAll .contents ns := by
  obtain ⟨first, hfirst, hlive, hms⟩ := exists_of_tree_eq_ok hxs
  obtain ⟨second, hsecond, hlive', hns⟩ := exists_of_tree_eq_ok hys
  obtain ⟨tokens, hboth, hsame, hflag⟩ :=
    Token.exists_ofSource_append hfirst hlive hsecond hends
  obtain ⟨ns', hns', hcontents⟩ := Node.exists_ofTokens_of_sameContents hsame hns
  refine ⟨ns', ?_, hcontents⟩
  rw [tree, hboth]
  show (Node.ofTokens (Token.settle (first.tokens ++ tokens))).map _ = _
  rw [Token.settle_append hflag, Node.ofTokens_append hms, hns', hlive']
  rfl

/-- A compiled template comes from a tree, and keeps the pair that is live at its end. -/
theorem Template.exists_tree_of_compile {pair : Delimiters} {source : String} {t : Template}
    (h : compile pair source = .ok t) : ∃ ns, tree pair source.toList = .ok (ns, t.live) := by
  unfold compile at h
  split at h
  · rename_i ns live htree
    cases h
    exact ⟨ns, htree⟩
  · cases h

/-! ## Evaluation -/

namespace Evaluation

variable {σ : Type} {w : World σ}

/-- A template that has a tree is evaluated on its nodes. -/
theorem ofTemplate_eq_nodes {source : String} {view : Value} {ns : List Node} {live : Delimiters}
    (htree : Template.tree w.delimiters source.toList = .ok (ns, live)) :
    ofTemplate w source view =
      nodes w (innerAt w w.limit) ⟨source.toList, ns, live⟩ (Context.ofView view) ns := by
  rw [ofTemplate, Tree.ofSource, htree]
  exact ofTree_eq_nodes w w.limit _ _

/-- Without lambdas in the view, a source that ends a line under the starting pair and another one
behind it give their texts in a row, or the first failure; neither asks anything. -/
theorem ofTemplate_append {view : Value} (hview : view.LambdaFree) {first second : String}
    {ms ns : List Node} {live : Delimiters}
    (hfirst : Template.tree w.delimiters first.toList = .ok (ms, w.delimiters))
    (hsecond : Template.tree w.delimiters second.toList = .ok (ns, live))
    (hends : EndsLine first.toList) :
    Agree Eq (ofTemplate w first view) (ofTemplate w first view) ∧
    Agree Eq (ofTemplate w second view) (ofTemplate w second view) ∧
    ofTemplate w (first ++ second) view = (do
      let text ← ofTemplate w first view
      let rest ← ofTemplate w second view
      pure (text ++ rest)) := by
  obtain ⟨ns', hboth, hcontents⟩ := Template.exists_tree_append hfirst hsecond hends
  rw [← String.toList_append] at hboth
  have hasks := asksNothing_of_mem_innerAt w w.limit
  have hctx := Context.lambdaFree_ofView hview
  rw [ofTemplate_eq_nodes hfirst, ofTemplate_eq_nodes hsecond, ofTemplate_eq_nodes hboth,
    nodes_append]
  refine ⟨agree_nodes_self hasks hctx _ ms, agree_nodes_self hasks hctx _ ns, ?_⟩
  rw [nodes_congr hasks hctx _ ⟨first.toList, ms, w.delimiters⟩ rfl,
    nodes_congr hasks hctx _ ⟨second.toList, ns, live⟩ hcontents]

/-- Where nothing is asked, texts in a row come to both texts, or to the kind of the first
failure. -/
theorem textOrKind_append {x y : Evaluation σ (List Char)} (hx : Agree Eq x x) (hy : Agree Eq y y)
    (i : Inquiry σ) :
    textOrKind ((do let text ← x; let rest ← y; pure (text ++ rest) : Evaluation σ _) i) =
      (textOrKind (x i)).bind fun text => (textOrKind (y i)).map fun rest => text ++ rest := by
  rcases hx with ⟨text, rfl, -⟩ | ⟨f, _, -, rfl, -⟩
  · rcases hy with ⟨rest, rfl, -⟩ | ⟨f, _, -, rfl, -⟩
    · show Except.ok (String.ofList (text ++ rest)) =
        Except.ok (String.ofList text ++ String.ofList rest)
      rw [String.ofList_append]
    · rfl
  · rfl

end Evaluation

/-! ## Rendering -/

/-- Take two sources that compile, of which the first ends a line under the starting pair, and a
view without lambdas.  Then both in a row compile.  After any requests, they are rendered to the
texts of both in a row, or with the kind of the error of the first one that fails. -/
theorem Session.render_append {σ : Type} (host : Host σ) (delimiters : Delimiters) (limit : Nat)
    (init : σ) (history : List Request) (first second : String) (t u : Template) (view : Value)
    (hfirst : Template.compile delimiters first = .ok t) (hlive : t.live = delimiters)
    (hsecond : Template.compile delimiters second = .ok u) (hends : EndsLine first.toList)
    (hview : view.LambdaFree) :
    let s := ((Session.start delimiters limit init).answerAll host history).2
    let outcome (source : String) :=
      Engine.textOrKind (Engine.render host source view ⟨s.engine, s.host, [], []⟩)
    (∃ both, Template.compile delimiters (first ++ second) = .ok both) ∧
      outcome (first ++ second) =
        (outcome first).bind fun text => (outcome second).map fun rest => text ++ rest := by
  intro s outcome
  obtain ⟨ms, hms⟩ := Template.exists_tree_of_compile hfirst
  obtain ⟨ns, hns⟩ := Template.exists_tree_of_compile hsecond
  rw [hlive] at hms
  constructor
  · obtain ⟨ns', hboth, -⟩ := Template.exists_tree_append hms hns hends
    rw [← String.toList_append] at hboth
    exact ⟨_, by rw [Template.compile, hboth]⟩
  · let w : World σ := ⟨delimiters, s.engine.partials, s.engine.limit, host⟩
    have houtcome : ∀ source, outcome source =
        Evaluation.textOrKind (Evaluation.ofTemplate w source view ⟨s.host, []⟩) := fun source =>
      Session.textOrKind_render host delimiters limit init history source view
    obtain ⟨hx, hy, hboth⟩ := Evaluation.ofTemplate_append (w := w) hview hms hns hends
    rw [houtcome, houtcome, houtcome, hboth]
    exact Evaluation.textOrKind_append hx hy _

/-- A line that sets delimiters and sets them back, and a tag behind it. -/
theorem Session.render_append_setDelimiters :
    let host : Host Unit := ⟨fun _ _ s => ("", s)⟩
    let first := "\x7b\x7b=| |=\x7d\x7d|a|,|=\x7b\x7b \x7d\x7d=|\n"
    let second := "\x7b\x7ba\x7d\x7d!"
    let view : Value := .map [("a", .bool true)]
    let s := ((Session.start .standard 64 ()).answerAll host []).2
    let outcome (source : String) :=
      Engine.textOrKind (Engine.render host source view ⟨s.engine, s.host, [], []⟩)
    ∃ t u, Template.compile .standard first = .ok t ∧ t.live = .standard ∧
      Template.compile .standard second = .ok u ∧ EndsLine first.toList ∧ view.LambdaFree ∧
      (∃ both, Template.compile .standard (first ++ second) = .ok both) ∧
      outcome (first ++ second) = .ok "true,\ntrue!" := by
  intro host first second view s outcome
  have hcompile : ∀ source live, (Template.compile .standard source).toOption.map Template.live =
      some live → ∃ t, Template.compile .standard source = .ok t ∧ t.live = live := by
    intro source live h
    cases ht : Template.compile .standard source with
    | error e =>
      rw [ht] at h
      cases h
    | ok t =>
      rw [ht] at h
      exact ⟨t, rfl, Option.some.inj h⟩
  obtain ⟨t, ht, hlive⟩ := hcompile first .standard (by decide +kernel)
  obtain ⟨u, hu, -⟩ := hcompile second .standard (by decide +kernel)
  have hends : EndsLine first.toList := by
    intro c hc
    have hlast : first.toList.getLast? = some '\n' := by decide +kernel
    rw [hlast] at hc
    exact (Option.some.inj hc).symm
  have hview : view.LambdaFree := by
    refine .map ?_
    intro e he
    rw [List.mem_singleton.1 he]
    exact .bool true
  obtain ⟨hboth, houtcome⟩ := Session.render_append host .standard 64 () [] first second t u view
    ht hlive hu hends hview
  have hfirst : outcome first = .ok "true,\n" := by decide +kernel
  have hsecond : outcome second = .ok "true!" := by decide +kernel
  refine ⟨t, u, ht, hlive, hu, hends, hview, hboth, houtcome.trans ?_⟩
  show (outcome first).bind (fun text => (outcome second).map fun rest => text ++ rest) = _
  rw [hfirst, hsecond]
  rfl

end Mustache
