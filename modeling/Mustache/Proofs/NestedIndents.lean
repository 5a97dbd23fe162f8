import Mustache.Proofs.Elision
import Mustache.Proofs.Indentation
import Mustache.Proofs.Verbatim

/-!
# Indents in a row

A partial that is included behind an indent may itself include a partial behind
an indent, and so on.  Each inclusion indents the source in which the next one
stands, so the next one gets both indents, and the text at the end of such a
chain gets all of them.

Main results:

- Theorem `InclusionLine.exists_tree`: an indented line with an inclusion includes its
  partial with both indents.
- Theorem `Evaluation.inclusion_chain`: a chain of inclusions evaluates to the text at
  its end, with all indents in front of each line.
- Theorem `Session.render_of_chain`: so it is rendered.
-/

namespace Mustache

/-! ## Lines that hold an inclusion -/

/-- A name that stands in a tag as it is: on one line, without blanks around it, and without
the character that closes tags. -/
structure IsPlainName (name : List Char) : Prop where
  newline : '\n' ∉ name
  brace : '}' ∉ name
  trim : Text.trim name = name

/-- A line that holds nothing but an inclusion behind an indent. -/
structure InclusionLine where
  indent : List Char
  name : String
  isIndent : Text.IsIndent indent
  isPlain : IsPlainName name.toList

namespace InclusionLine

/-- The characters of the tag. -/
def tag (l : InclusionLine) : List Char :=
  Delimiters.standard.left.chars ++ ('>' :: (l.name.toList ++ Delimiters.standard.right.chars))

/-- The line as a source. -/
def source (l : InclusionLine) : String :=
  String.ofList (l.indent ++ (l.tag ++ ['\n']))

/-- Each line includes the partial whose source is the next line, and the last one includes the
partial whose source is the text. -/
def Chain (partials : Dictionary String) (text : String) :
    InclusionLine → List InclusionLine → Prop
  | l, [] => Dictionary.get? partials l.name = some text
  | l, next :: rest => Dictionary.get? partials l.name = some next.source ∧
      Chain partials text next rest

/-- The indents of consecutive lines. -/
def indents (ls : List InclusionLine) : List Char :=
  ls.flatMap indent

theorem isIndent_indents (ls : List InclusionLine) : Text.IsIndent (indents ls) := by
  induction ls with
  | nil => exact ⟨by simp [indents, Text.AllBlank], by simp [indents]⟩
  | cons l ls ih => exact l.isIndent.append ih

/-- Indenting a line puts the indent in front of it. -/
theorem indentLines_source (l : InclusionLine) (v : List Char) :
    Template.indentLines v l.source.toList = (v ++ l.indent) ++ (l.tag ++ ['\n']) := by
  have hnewline : '\n' ∉ l.indent ++ l.tag := by
    have hmarkers : '\n' ∉ Delimiters.standard.left.chars ∧
        '\n' ∉ Delimiters.standard.right.chars := by
      decide
    simp [tag, l.isIndent.newline, l.isPlain.newline, hmarkers]
  have hne : l.indent ++ l.tag ++ ['\n'] ≠ [] := by simp
  rw [source, String.toList_ofList, Template.indentLines, ← List.append_assoc,
    Text.indentFrom_eq_lead_append v true hne, Text.indentFrom_of_newline_not_mem v hnewline]
  simp [Template.indentFrom]

end InclusionLine

/-! ## The tree of a line -/

namespace Token

/-- The text in front of other tokens of a line is taken away, and indents the inclusions. -/
theorem dropText_append_of_forall_text {xs : List Token} (h : ∀ t ∈ xs, t.kind = .text)
    (indent : List Char) (ys : List Token) :
    dropText indent (xs ++ ys) = dropText (indent ++ xs.flatMap fun t => t.whole.text) ys := by
  induction xs generalizing indent with
  | nil => simp
  | cons t ts ih =>
    rw [List.cons_append, dropText, h t List.mem_cons_self]
    dsimp only
    rw [ih fun u hu => h u (List.mem_cons_of_mem _ hu)]
    simp

end Token

namespace InclusionLine

/-- What is read of the line: texts for the indent, the tag and the newline. -/
def lexemes (l : InclusionLine) (texts : List (List Char)) : List Lexeme :=
  texts.map Lexeme.text ++ [.tag .standard .angle l.name.toList, .text ['\n']]

/-- What is read behind an indent is the tag and the newline. -/
theorem exists_scan (l : InclusionLine) {u : List Char} (hu : Text.IsIndent u) :
    ∃ texts : List (List Char), texts.flatten = u ∧
      Scan.read .standard (u ++ (l.tag ++ ['\n'])) =
        ⟨l.lexemes texts, .finished .standard⟩ := by
  have hsolid := Delimiters.standard.left.isSolid
  have hfirst : Text.FirstAt Delimiters.standard.left.chars (u ++ (l.tag ++ ['\n'])) u
      ('>' :: (l.name.toList ++ (Delimiters.standard.right.chars ++ ['\n']))) := by
    have hhere : Text.breakOn Delimiters.standard.left.chars (l.tag ++ ['\n']) =
        some ([], '>' :: (l.name.toList ++ (Delimiters.standard.right.chars ++ ['\n']))) := by
      simp [tag, Delimiters.standard, Text.breakOn]
    rw [← Text.breakOn_eq_some_iff, Text.breakOn_append_of_allBlank hu.blank hsolid, hhere]
    simp
  have htag : Step.read .standard (Delimiters.standard.left.chars ++
      ('>' :: (l.name.toList ++ (Delimiters.standard.right.chars ++ ['\n'])))) =
      .lexeme (.tag .standard .angle l.name.toList) .standard ['\n'] := by
    have hread : Step.read .standard
        ((Lexeme.tag .standard .angle l.name.toList).chars ++ ['\n']) =
          .lexeme (.tag .standard .angle l.name.toList) .standard ['\n'] := by
      refine Step.read_tag (by decide) .angle ?_
      rintro c ⟨⟩
      exact l.isPlain.brace
    simpa [Lexeme.chars, Sigil.mark, Sigil.terminator] using hread
  have hend : Step.read .standard ['\n'] = .lexeme (.text ['\n']) .standard [] := rfl
  obtain ⟨texts, hflatten, hread⟩ := Scan.read_append_of_clear u _ hfirst.clear
    (Step.textRun_left_append Delimiters.standard.left _)
  refine ⟨texts, hflatten, ?_⟩
  rw [hfirst.eq, hread, Scan.read_of_lexeme htag, Scan.read_of_lexeme hend,
    Scan.read_of_ended (show Step.read .standard [] = .ended (.finished .standard) from rfl)]
  rfl

/-- A line with an inclusion behind blanks is standalone, and the inclusion gets the blanks as its
indent. -/
theorem settleLine_inclusion {xs : List Token} {tag newline : Token} {name : Fragment}
    (htext : ∀ t ∈ xs, t.kind = .text) (hblank : Text.AllBlank (xs.flatMap fun t => t.whole.text))
    (htag : tag.kind = .inclusion name []) (hnewline : newline.kind = .text)
    (hend : newline.whole.text = ['\n']) :
    Token.settleLine (xs ++ [tag, newline]) =
      [{ tag with kind := .inclusion name (xs.flatMap fun t => t.whole.text) }] := by
  have hstandalone : Token.Standalone (xs ++ [tag, newline]) := by
    refine ⟨⟨tag, by simp, ?_⟩, ?_, ?_⟩
    · rw [htag]
      exact .inclusion name []
    · intro t ht escaping name'
      rcases List.mem_append.1 ht with ht | ht
      · simp [htext t ht]
      · rcases List.mem_pair.1 ht with rfl | rfl
        · simp [htag]
        · simp [hnewline]
    · intro t ht hkind c hc
      rcases List.mem_append.1 ht with ht | ht
      · exact hblank c (List.mem_flatMap.2 ⟨t, ht, hc⟩)
      · rcases List.mem_pair.1 ht with rfl | rfl
        · simp [htag] at hkind
        · rw [hend, List.mem_singleton] at hc
          rw [hc]
          decide
  rw [Token.settleLine, if_pos ((Token.isStandaloneLine_iff _).2 hstandalone),
    Token.dropText_append_of_forall_text htext, List.nil_append, Token.dropText, htag]
  dsimp only
  rw [Token.dropText, hnewline]
  rfl

section

variable (l : InclusionLine) {u : List Char} (hu : Text.IsIndent u) {texts : List (List Char)}
  (htexts : texts.flatten = u)

include hu htexts

/-- The line is one line of tokens. -/
theorem lines_ofLexemes :
    Token.lines (Token.ofLexemes 0 true (l.lexemes texts)) =
      [Token.ofLexemes 0 true (l.lexemes texts)] := by
  let angle : Lexeme := .tag .standard .angle l.name.toList
  have hchars : ∀ l' ∈ texts.map Lexeme.text ++ [angle], '\n' ∉ l'.chars := by
    intro l' hl'
    rcases List.mem_append.1 hl' with hl' | hl'
    · obtain ⟨chars, hchars, rfl⟩ := List.mem_map.1 hl'
      intro hmem
      apply hu.newline
      rw [← htexts]
      exact List.mem_flatten.2 ⟨chars, hchars, hmem⟩
    · rw [List.mem_singleton.1 hl']
      simp [angle, Lexeme.chars, Sigil.mark, Sigil.terminator, l.isPlain.newline,
        Delimiters.standard]
  have hdropLast : (l.lexemes texts).dropLast = texts.map Lexeme.text ++ [angle] := by
    simp [lexemes, angle]
  refine Token.lines_ofLexemes ?_ (by simp [lexemes]) 0 true
  rw [hdropLast]
  exact .of_newline_not_mem hchars

/-- Nothing is left of the line but its inclusion. -/
theorem exists_settle_ofLexemes :
    ∃ name whole flag, Token.settle (Token.ofLexemes 0 true (l.lexemes texts)) =
      [⟨.inclusion name u, whole, flag⟩] ∧ name.text = l.name.toList := by
  let angle : Lexeme := .tag .standard .angle l.name.toList
  have happend := Token.ofLexemes_append 0 true (texts.map Lexeme.text) [angle, .text ['\n']]
  let start := 0 + Text.byteLength ((texts.map Lexeme.text).flatMap Lexeme.chars)
  let body : Fragment := ⟨start + Text.byteLength Delimiters.standard.left.chars +
    Text.byteLength Sigil.angle.mark, l.name.toList⟩
  have htext : ∀ t ∈ Token.ofLexemes 0 true (texts.map Lexeme.text), t.kind = .text :=
    fun t ht => Token.kind_of_mem_ofLexemes_text ht
  have hindent : (Token.ofLexemes 0 true (texts.map Lexeme.text)).flatMap
      (fun t => t.whole.text) = u := by
    rw [Token.flatMap_text_ofLexemes, flatMap_chars_text, htexts]
  have hblank : Text.AllBlank ((Token.ofLexemes 0 true (texts.map Lexeme.text)).flatMap
      fun t => t.whole.text) := by
    rw [hindent]
    exact hu.blank
  refine ⟨body.trimmed, ⟨start, angle.chars⟩, Token.flagBehind true (texts.map Lexeme.text), ?_,
    l.isPlain.trim⟩
  rw [Token.settle, l.lines_ofLexemes hu htexts, List.flatMap_cons, List.flatMap_nil,
    List.append_nil, lexemes, happend]
  refine (settleLine_inclusion htext hblank rfl rfl rfl).trans ?_
  rw [hindent]

end

/-- The tree of an indented line is an inclusion with both indents. -/
theorem exists_tree (l : InclusionLine) {v : List Char} (hv : Text.IsIndent v) :
    ∃ tree name whole,
      Tree.ofSource .standard (Template.indentLines v l.source.toList) = .ok tree ∧
      tree.nodes = [.inclusion name (v ++ l.indent) whole] ∧ name.toString = l.name := by
  have hu := hv.append l.isIndent
  obtain ⟨texts, htexts, hscan⟩ := l.exists_scan hu
  obtain ⟨name, whole, flag, hsettle, hname⟩ := l.exists_settle_ofLexemes hu htexts
  have hsource : Token.ofSource .standard (Template.indentLines v l.source.toList) =
      .ok ⟨Token.ofLexemes 0 true (l.lexemes texts), .standard⟩ := by
    rw [indentLines_source, Token.ofSource, hscan]
    rfl
  have htree : Template.tree .standard (Template.indentLines v l.source.toList) =
      .ok ([.inclusion name (v ++ l.indent) whole], .standard) := by
    refine Template.tree_of_ofTokens hsource ?_
    rw [hsettle]
    rfl
  refine ⟨⟨Template.indentLines v l.source.toList, [.inclusion name (v ++ l.indent) whole],
    .standard⟩, name, whole, ?_, rfl, ?_⟩
  · rw [Tree.ofSource, htree]
  · rw [Fragment.toString, hname, String.ofList_toList]

end InclusionLine

/-! ## Evaluation of a chain -/

namespace Evaluation

variable {σ : Type} {w : World σ}

/-- A tree with nothing but an inclusion is evaluated as the inclusion is, one level deeper. -/
theorem ofTree_inclusion (depth : Nat) {tree : Tree} {name : Fragment} {indent : List Char}
    {whole : Fragment} (htree : tree.nodes = [.inclusion name indent whole]) (ctx : Context) :
    ofTree w (depth + 1) tree ctx =
      inclusion w (some (ofTree w depth)) ctx name.toString indent := by
  show nodes w (some (ofTree w depth)) tree ctx tree.nodes = _
  rw [htree, nodes, node, nodes]
  simp

/-- A partial whose source has a tree is evaluated on this tree. -/
theorem inclusion_of_tree {name source : String} {indent : List Char} {tree : Tree}
    (hsource : Dictionary.get? w.partials name = some source)
    (htree : Tree.ofSource w.delimiters (Template.indentLines indent source.toList) = .ok tree)
    (evaluate : Inner σ) (ctx : Context) :
    inclusion w (some evaluate) ctx name indent = evaluate tree ctx := by
  rw [inclusion, hsource]
  dsimp only
  rw [htree]

/-- A chain of inclusions evaluates to the text at its end, with all indents in front of each
line. -/
theorem inclusion_chain (hstandard : w.delimiters = .standard) {text : String}
    (habsent : ¬ Delimiters.standard.left.chars <:+: text.toList) {l : InclusionLine}
    {rest : List InclusionLine} (hchain : InclusionLine.Chain w.partials text l rest)
    {v : List Char} (hv : Text.IsIndent v) {depth : Nat} (hdepth : rest.length ≤ depth)
    (ctx : Context) :
    inclusion w (some (ofTree w depth)) ctx l.name v =
      pure (Template.indentLines (v ++ InclusionLine.indents rest) text.toList) := by
  -- Each inclusion adds its indent to the one that the source around it has got.
  induction rest generalizing l v depth with
  | nil =>
    have habsent' := Text.absent_indentLines hv Delimiters.standard.left.isSolid habsent
    obtain ⟨tree, htree, heval⟩ := exists_ofTree_of_absent w habsent'
    rw [inclusion_of_tree hchain (by rw [hstandard, htree]), heval]
    simp [InclusionLine.indents]
  | cons next rest ih =>
    obtain ⟨hsource, hrest⟩ := hchain
    obtain ⟨tree, name, whole, htree, hnodes, hname⟩ := next.exists_tree hv
    obtain ⟨depth, rfl⟩ : ∃ d, depth = d + 1 :=
      ⟨depth - 1, by rw [List.length_cons] at hdepth; omega⟩
    have hdepth' : rest.length ≤ depth := by simpa using hdepth
    rw [inclusion_of_tree hsource (by rw [hstandard, htree]), ofTree_inclusion depth hnodes,
      hname, ih hrest (hv.append next.isIndent) hdepth']
    simp [InclusionLine.indents]

end Evaluation

/-! ## Rendering a chain -/

/-- Take lines each of which includes the partial that is stored as the next line, the last one a
partial without the left marker, and not more lines than the limit allows.  After any requests, the
first line is rendered to this text with all indents in front of each of its lines, and there are no
other lines in the output. -/
theorem Session.render_of_chain {σ : Type} (host : Host σ) (limit : Nat) (init : σ)
    (history : List Request) (first : InclusionLine) (rest : List InclusionLine) (text : String)
    (view : Value) (habsent : ¬ Delimiters.standard.left.chars <:+: text.toList) :
    let s := ((Session.start .standard limit init).answerAll host history).2
    InclusionLine.Chain s.engine.partials text first rest → (first :: rest).length ≤ s.engine.limit →
      ∃ output a,
        Engine.render host first.source view ⟨s.engine, s.host, [], []⟩ = .ok output a ∧
        Text.lines output.toList =
          (Text.lines text.toList).map fun l => InclusionLine.indents (first :: rest) ++ l := by
  intro s hchain hlimit
  let indent := InclusionLine.indents (first :: rest)
  let w : World σ := ⟨.standard, s.engine.partials, s.engine.limit, host⟩
  have hnil : Text.IsIndent [] := InclusionLine.isIndent_indents []
  obtain ⟨tree, name, whole, htree, hnodes, hname⟩ := first.exists_tree hnil
  rw [Template.indentLines_nil] at htree
  obtain ⟨depth, hdepth⟩ : ∃ d, s.engine.limit = d + 1 :=
    ⟨s.engine.limit - 1, by rw [List.length_cons] at hlimit; omega⟩
  have hrest : rest.length ≤ depth := by rw [List.length_cons] at hlimit; omega
  have hevaluation : Evaluation.ofTemplate w first.source view ⟨s.host, []⟩ =
      .ok (Template.indentLines indent text.toList) ⟨s.host, []⟩ := by
    have hinclusion := Evaluation.inclusion_chain (w := w) rfl habsent hchain first.isIndent hrest
      (Context.ofView view)
    rw [Evaluation.ofTemplate, show w.delimiters = .standard from rfl, htree]
    dsimp only
    rw [show w.limit = depth + 1 from hdepth, Evaluation.ofTree_inclusion depth hnodes, hname,
      List.nil_append, hinclusion]
    rfl
  obtain ⟨a, ha⟩ := Session.render_of_evaluation host .standard limit init history first.source view
  rw [show Evaluation.ofTemplate _ first.source view _ = _ from hevaluation] at ha
  refine ⟨_, a, ha, ?_⟩
  rw [String.toList_ofList]
  exact Text.lines_indentLines (InclusionLine.isIndent_indents _).newline text.toList

/-- Two levels behind a blank and a tab, after the inner partial was included with another indent. -/
theorem Session.render_of_chain_two_levels :
    let host : Host Unit := ⟨fun _ _ s => ("", s)⟩
    let first : InclusionLine := ⟨[' '], "a", ⟨by decide, by decide⟩, ⟨by decide, by decide, by decide⟩⟩
    let next : InclusionLine := ⟨['\t'], "b", ⟨by decide, by decide⟩, ⟨by decide, by decide, by decide⟩⟩
    let history : List Request := [.setPartials [("a", "\t\x7b\x7b>b\x7d\x7d\n"), ("b", "x\n\ny")],
      .render "  \x7b\x7b>b\x7d\x7d\n" (.direct .null)]
    let s := ((Session.start .standard 2 ()).answerAll host history).2
    (¬ Delimiters.standard.left.chars <:+: "x\n\ny".toList ∧
      InclusionLine.Chain s.engine.partials "x\n\ny" first [next] ∧
      [first, next].length ≤ s.engine.limit) ∧
    ∃ output a,
      Engine.render host first.source .null ⟨s.engine, s.host, [], []⟩ = .ok output a ∧
      Text.lines output.toList = [[' ', '\t', 'x', '\n'], [' ', '\t', '\n'], [' ', '\t', 'y']] := by
  intro host first next history s
  have habsent : ¬ Delimiters.standard.left.chars <:+: "x\n\ny".toList := by decide +kernel
  have houter : Dictionary.get? s.engine.partials first.name = some next.source := by
    decide +kernel
  have hinner : Dictionary.get? s.engine.partials next.name = some "x\n\ny" := by decide +kernel
  have hchain : InclusionLine.Chain s.engine.partials "x\n\ny" first [next] := ⟨houter, hinner⟩
  have hlimit : [first, next].length ≤ s.engine.limit := by decide +kernel
  refine ⟨⟨habsent, hchain, hlimit⟩, ?_⟩
  obtain ⟨output, a, hrender, hlines⟩ := Session.render_of_chain host 2 () history first [next]
    "x\n\ny" .null habsent hchain hlimit
  refine ⟨output, a, hrender, ?_⟩
  rw [hlines]
  decide

end Mustache
