import Mathlib.Data.List.Forall2
import Mustache.Proofs.Elision
import Mustache.Proofs.IndentedReading

/-!
# What indenting a source changes

An indented source has the lines of the source.  A line is standalone if it was, so
the indent in front of it is taken away with its other blanks, and goes to the
inclusions on it.  On every other line the indent stands in front of the literal text.
Tags and sections stay as they are, but for the indent inside names that go over
several lines.

Main results:

- Theorem `Token.isStandaloneLine_behindIndent`: a line is standalone if it was.
- Theorem `Token.tagKinds_dropText_behindIndent`: the inclusions of a standalone line
  get the indent in front of their own.
- Theorem `Token.indentedLine_of_contents`: what becomes of a line.
- Theorem `Template.compile_indented`: what becomes of a template.
-/

namespace Mustache

open Text Template

/-! ## Tags and literal texts -/

/-- The kind with a function applied to the indent of an inclusion. -/
def TokenKind.mapIndent (f : List Char → List Char) : TokenKind → TokenKind
  | .inclusion name indent => .inclusion name (f indent)
  | kind => kind

namespace Token

/-- The kind of a tag, with a function applied to its name, wherever the name stands. -/
def tagKind? (f : List Char → List Char) (t : Token) : Option TokenKind :=
  match t.kind with
  | .text => none
  | kind => some (kind.rename f)

/-- The kinds of the tags among tokens. -/
def tagKinds (f : List Char → List Char) (ts : List Token) : List TokenKind :=
  ts.filterMap (tagKind? f)

/-- The literal texts before, between and behind the tags among tokens. -/
def literals : List Token → List (List Char)
  | [] => [[]]
  | t :: ts =>
    match t.kind with
    | .text => (literals ts).modifyHead fun text => t.whole.text ++ text
    | _ => [] :: literals ts

theorem literals_cons_of_kind_eq_text {t : Token} (h : t.kind = .text) (ts : List Token) :
    literals (t :: ts) = (literals ts).modifyHead fun text => t.whole.text ++ text := by
  rw [literals, h]

theorem literals_cons_of_kind_ne_text {t : Token} (h : t.kind ≠ .text) (ts : List Token) :
    literals (t :: ts) = [] :: literals ts := by
  rw [literals]
  cases hkind : t.kind with
  | text => exact absurd hkind h
  | _ => rfl

/-- Tags and literal texts belong to the contents of tokens. -/
theorem tagKinds_outline (f : List Char → List Char) (ts : List Token) :
    tagKinds f (ts.filterMap fun t => t.outline .contents) = tagKinds f ts := by
  induction ts with
  | nil => rfl
  | cons t ts ih =>
    unfold tagKinds at ih ⊢
    obtain ⟨u, hu, hkind, -⟩ := exists_outline Outline.keepsText_contents t
    have hsame : tagKind? f u = tagKind? f t := by
      unfold tagKind?
      rw [hkind]
      cases t.kind <;> rfl
    rw [List.filterMap_cons_some hu, List.filterMap_cons, List.filterMap_cons, ih, hsame]

theorem literals_outline (ts : List Token) :
    literals (ts.filterMap fun t => t.outline .contents) = literals ts := by
  induction ts with
  | nil => rfl
  | cons t ts ih =>
    obtain ⟨u, hu, hkind, -, htext⟩ := exists_outline Outline.keepsText_contents t
    rw [List.filterMap_cons_some hu]
    by_cases h : t.kind = .text
    · have hu' : u.kind = .text := by rw [hkind, h]; rfl
      rw [literals_cons_of_kind_eq_text h, literals_cons_of_kind_eq_text hu', ih, htext h]
    · have hu' : u.kind ≠ .text := by
        rw [hkind]
        cases hk : t.kind with
        | text => exact absurd hk h
        | _ => simp [TokenKind.outline]
      rw [literals_cons_of_kind_ne_text h, literals_cons_of_kind_ne_text hu', ih]

/-- Where text is taken away, the literal texts between the tags are empty. -/
theorem literals_dropText (f : List Char → List Char) (indent : List Char) (ts : List Token) :
    literals (dropText indent ts) = List.replicate ((tagKinds f ts).length + 1) [] := by
  unfold tagKinds
  induction ts generalizing indent with
  | nil => rfl
  | cons t ts ih =>
    rw [dropText, List.filterMap_cons]
    cases hkind : t.kind <;> simp [tagKind?, hkind, ih, literals, List.replicate_succ]

/-! ## Lines behind their indents -/

section

variable {w : List Char}

theorem behindIndent_of_kind_eq_text {t : Token} (h : t.kind = .text) :
    behindIndent w t =
      [⟨.text, ⟨0, lead w t.beginsLine ++ t.whole.text⟩, t.beginsLine⟩] := by
  rw [behindIndent, h]

/-- The tag of a token behind an indent has the indent in its name. -/
theorem tagKinds_behindIndent_self (t : Token) :
    tagKinds id (behindIndent w t) = (tagKind? (afterNewlines w) t).toList := by
  obtain ⟨kind, whole, beginsLine⟩ := t
  cases kind <;> cases beginsLine <;> rfl

/-- The tags are the same, with the indent in their names. -/
theorem tagKinds_behindIndent (ts : List Token) :
    tagKinds id (ts.flatMap (behindIndent w)) = tagKinds (afterNewlines w) ts := by
  induction ts with
  | nil => rfl
  | cons t ts ih =>
    have htag := tagKinds_behindIndent_self (w := w) t
    unfold tagKinds at ih htag ⊢
    rw [List.flatMap_cons, List.filterMap_append, htag, ih, List.filterMap_cons]
    cases tagKind? (afterNewlines w) t <;> rfl

/-- A line is standalone behind its indent if it was. -/
theorem isStandaloneLine_behindIndent (hw : AllBlank w) (line : List Token) :
    isStandaloneLine (line.flatMap (behindIndent w)) = isStandaloneLine line := by
  have hblank : ∀ b, (lead w b).all isBlank = true := by
    intro b
    rw [List.all_eq_true]
    exact allBlank_lead hw b
  have hindent : w.all isBlank = true := hblank true
  have hany : ∀ t, (behindIndent w t).any (fun u => u.kind.isStandalone) =
      t.kind.isStandalone := by
    rintro ⟨kind, whole, beginsLine⟩
    cases kind <;> cases beginsLine <;> rfl
  have hall : ∀ t, (behindIndent w t).all fitsStandaloneLine = t.fitsStandaloneLine := by
    rintro ⟨kind, whole, beginsLine⟩
    cases kind with
    | text => simp [behindIndent, fitsStandaloneLine, hblank]
    | _ => cases beginsLine <;>
        simp [behindIndent, fitsStandaloneLine, TokenKind.rename, TokenKind.isStandalone, hindent]
  rw [isStandaloneLine, isStandaloneLine, List.any_flatMap, List.all_flatMap]
  simp only [hany, hall]

/-- The token without its flag. -/
def unflagged (t : Token) : Token :=
  { t with beginsLine := false }

/-- The indent of a flagged token may be taken for text before it. -/
theorem dropText_behindIndent_of_beginsLine {t : Token} (h : t.beginsLine = true)
    (rest : List Token) :
    dropText [] (behindIndent w t ++ rest) = dropText w (behindIndent w t.unflagged ++ rest) := by
  by_cases hkind : t.kind = .text
  · rw [behindIndent_of_kind_eq_text hkind,
      behindIndent_of_kind_eq_text (t := t.unflagged) hkind, h]
    simp [dropText, unflagged]
  · rw [behindIndent_of_kind_ne_text hkind,
      behindIndent_of_kind_ne_text (t := t.unflagged) hkind, h]
    simp [dropText, unflagged]

/-- The literal text before a flagged token begins with the indent. -/
theorem literals_behindIndent_of_beginsLine {t : Token} (h : t.beginsLine = true)
    (rest : List Token) :
    literals (behindIndent w t ++ rest) =
      (literals (behindIndent w t.unflagged ++ rest)).modifyHead fun text => w ++ text := by
  by_cases hkind : t.kind = .text
  · rw [behindIndent_of_kind_eq_text hkind,
      behindIndent_of_kind_eq_text (t := t.unflagged) hkind, h]
    cases hrest : literals rest <;> simp [literals, unflagged, hrest]
  · rw [behindIndent_of_kind_ne_text hkind,
      behindIndent_of_kind_ne_text (t := t.unflagged) hkind, h]
    simp [literals, unflagged]

/-- Within a line, inclusions have the indent in front of their own if the text before the line
had. -/
theorem tagKinds_dropText_behindIndent_of_unflagged {ts : List Token}
    (h : ∀ t ∈ ts, t.beginsLine = false) (indent : List Char) :
    tagKinds id (dropText (w ++ indent) (ts.flatMap (behindIndent w))) =
      (tagKinds (afterNewlines w) (dropText indent ts)).map
        (TokenKind.mapIndent fun i => w ++ i) := by
  induction ts generalizing indent with
  | nil => rfl
  | cons t ts ih =>
    have hrest := ih fun u hu => h u (List.mem_cons_of_mem _ hu)
    obtain ⟨kind, whole, beginsLine⟩ := t
    obtain rfl : beginsLine = false := h _ List.mem_cons_self
    unfold tagKinds at hrest ⊢
    cases kind with
    | text =>
      simp only [List.flatMap_cons, behindIndent, dropText, lead_false, List.nil_append,
        List.singleton_append, List.append_assoc]
      exact hrest (indent ++ whole.text)
    | _ => simp [behindIndent, dropText, TokenKind.rename, tagKind?, TokenKind.mapIndent, hrest]

/-- Within a line, the literal texts are the same. -/
theorem literals_behindIndent_of_unflagged {ts : List Token}
    (h : ∀ t ∈ ts, t.beginsLine = false) :
    literals (ts.flatMap (behindIndent w)) = literals ts := by
  induction ts with
  | nil => rfl
  | cons t ts ih =>
    have hrest := ih fun u hu => h u (List.mem_cons_of_mem _ hu)
    obtain ⟨kind, whole, beginsLine⟩ := t
    obtain rfl : beginsLine = false := h _ List.mem_cons_self
    cases kind <;> simp [behindIndent, literals, TokenKind.rename, hrest]

/-- A line of which the first token, and no other, begins a source line. -/
def BeginsOnce (line : List Token) : Prop :=
  ∃ first others, line = first :: others ∧ first.beginsLine = true ∧
    ∀ t ∈ others, t.beginsLine = false

/-- The inclusions of a standalone line get the indent in front of their own. -/
theorem tagKinds_dropText_behindIndent {line : List Token} (h : BeginsOnce line) :
    tagKinds id (dropText [] (line.flatMap (behindIndent w))) =
      (tagKinds (afterNewlines w) (dropText [] line)).map
        (TokenKind.mapIndent fun i => w ++ i) := by
  obtain ⟨first, others, rfl, hfirst, hothers⟩ := h
  have hunflagged : ∀ t ∈ first.unflagged :: others, t.beginsLine = false :=
    List.forall_mem_cons.2 ⟨rfl, hothers⟩
  have hline := tagKinds_dropText_behindIndent_of_unflagged (w := w) hunflagged []
  have hsame : tagKinds (afterNewlines w) (dropText [] (first.unflagged :: others)) =
      tagKinds (afterNewlines w) (dropText [] (first :: others)) := by
    obtain ⟨kind, whole, beginsLine⟩ := first
    cases kind <;> rfl
  rw [List.flatMap_cons, dropText_behindIndent_of_beginsLine hfirst, ← hsame, ← hline,
    List.append_nil, List.flatMap_cons]

/-- The literal text at the beginning of a line gets the indent in front of it. -/
theorem literals_behindIndent {line : List Token} (h : BeginsOnce line) :
    literals (line.flatMap (behindIndent w)) =
      (literals line).modifyHead fun text => w ++ text := by
  obtain ⟨first, others, rfl, hfirst, hothers⟩ := h
  have hunflagged : ∀ t ∈ first.unflagged :: others, t.beginsLine = false :=
    List.forall_mem_cons.2 ⟨rfl, hothers⟩
  have hsame : literals (first.unflagged :: others) = literals (first :: others) := by
    obtain ⟨kind, whole, beginsLine⟩ := first
    cases kind <;> rfl
  rw [List.flatMap_cons, literals_behindIndent_of_beginsLine hfirst, ← hsame,
    ← literals_behindIndent_of_unflagged hunflagged, List.flatMap_cons]

end

/-! ## Lines of an indented source -/

/-- What becomes of a line of tokens.  It is standalone if it was.  Its tags are the same, with the
indent behind the newlines of their names.  Inclusions get the indent in front of their own on a
standalone line, and have none on any other.  The indent stands in front of the literal text, unless
the line is standalone. -/
structure IndentedLine (w : List Char) (line line' : List Token) : Prop where
  standalone : isStandaloneLine line' = isStandaloneLine line
  tags : tagKinds id (settleLine line') =
    (tagKinds (afterNewlines w) (settleLine line)).map
      (TokenKind.mapIndent fun i => if isStandaloneLine line then w ++ i else i)
  unindented : isStandaloneLine line = false → Unindented line ∧ Unindented line'
  literals : literals (settleLine line') =
    if isStandaloneLine line then literals (settleLine line)
    else (literals (settleLine line)).modifyHead fun text => w ++ text

/-- What becomes of a line is told by its contents. -/
theorem indentedLine_of_contents {w : List Char} (hw : AllBlank w) {line line' : List Token}
    (hcontents : line'.filterMap (fun t => t.outline .contents) = line.flatMap (behindIndent w))
    (honce : BeginsOnce line) (hline : Unindented line) (hline' : Unindented line') :
    IndentedLine w line line' := by
  have hstandalone : isStandaloneLine line' = isStandaloneLine line := by
    rw [← isStandaloneLine_outline Outline.keepsText_contents, hcontents,
      isStandaloneLine_behindIndent hw]
  have hdropped : tagKinds id (dropText [] line') =
      (tagKinds (afterNewlines w) (dropText [] line)).map
        (TokenKind.mapIndent fun i => w ++ i) := by
    rw [← tagKinds_outline, ← dropText_outline Outline.keepsText_contents, hcontents,
      tagKinds_dropText_behindIndent honce]
  have htags : tagKinds id line' = tagKinds (afterNewlines w) line := by
    rw [← tagKinds_outline, hcontents, tagKinds_behindIndent]
  cases h : isStandaloneLine line with
  | true =>
    have hsettled : settleLine line = dropText [] line := if_pos h
    have hsettled' : settleLine line' = dropText [] line' := if_pos (hstandalone.trans h)
    refine ⟨hstandalone, ?_, fun hno => ?_, ?_⟩
    · rw [hsettled, hsettled', hdropped]
      simp only [h, if_true]
    · rw [h] at hno
      cases hno
    · rw [hsettled, hsettled', literals_dropText id, literals_dropText (afterNewlines w), htags, h,
        if_pos rfl]
  | false =>
    have hkept : settleLine line = line := settleLine_of_not_isStandaloneLine h
    have hkept' : settleLine line' = line' :=
      settleLine_of_not_isStandaloneLine (hstandalone.trans h)
    refine ⟨hstandalone, ?_, fun _ => ⟨hline, hline'⟩, ?_⟩
    · have hid : TokenKind.mapIndent (fun i => i) = id := by
        funext kind
        cases kind <;> rfl
      rw [hkept, hkept', htags]
      simp only [h, Bool.false_eq_true, if_false, hid, List.map_id]
    · rw [hkept, hkept', ← literals_outline, hcontents, literals_behindIndent honce, h]
      rfl

/-- The lines of a source, each of which begins once. -/
theorem beginsOnce_of_mem_lines {pair : Delimiters} {source : List Char} {stream : Stream}
    (h : ofSource pair source = .ok stream) {line : List Token}
    (hline : line ∈ lines stream.tokens) : BeginsOnce line := by
  have hflag := beginsLine_iff_of_ofSource h
  obtain ⟨first, others, rfl, hfirst, hothers⟩ := isSourceLine_of_mem_lines h hline
  refine ⟨first, others, rfl, ?_, ?_⟩
  · exact (hflag first (mem_of_mem_lines hline List.mem_cons_self)).2 hfirst
  · exact beginsLine_of_mem_tail hline

/-- The lines of an indented source are those of the source, one by one. -/
theorem forall₂_indentedLine {w : List Char} (hw : AllBlank w) {pair pair' : Delimiters}
    {source source' : List Char} {stream stream' : Stream} (h : ofSource pair source = .ok stream)
    (h' : ofSource pair' source' = .ok stream')
    (hcontents : stream'.tokens.filterMap (fun t => t.outline .contents) =
      stream.tokens.flatMap (behindIndent w)) :
    List.Forall₂ (IndentedLine w) (lines stream.tokens) (lines stream'.tokens) := by
  have hbehind : KeepsFlag (behindIndent w) := by
    rintro ⟨kind, whole, beginsLine⟩
    cases kind with
    | text => exact ⟨_, [], rfl, rfl, by simp⟩
    | _ => cases beginsLine <;> exact ⟨_, _, rfl, rfl, by simp⟩
  have hlines : (lines stream'.tokens).map (fun line => line.filterMap fun t => t.outline .contents)
      = (lines stream.tokens).map fun line => line.flatMap (behindIndent w) := by
    rw [← lines_outline Outline.keepsText_contents, hcontents, hbehind.lines_flatMap]
  have hpairs : List.Forall₂ (fun line line' => line'.filterMap (fun t => t.outline .contents) =
      line.flatMap (behindIndent w)) (lines stream.tokens) (lines stream'.tokens) := by
    have heq := List.forall₂_eq_eq_eq.symm ▸ hlines.symm
    rw [List.forall₂_map_left_iff, List.forall₂_map_right_iff] at heq
    exact heq.imp fun _ _ => Eq.symm
  rw [List.forall₂_iff_zip] at hpairs ⊢
  refine ⟨hpairs.1, fun {line line'} hzip => ?_⟩
  obtain ⟨hline, hline'⟩ := List.of_mem_zip hzip
  refine indentedLine_of_contents hw (hpairs.2 hzip) (beginsOnce_of_mem_lines h hline) ?_ ?_
  · exact fun t ht => unindented_of_ofSource h t (mem_of_mem_lines hline ht)
  · exact fun t ht => unindented_of_ofSource h' t (mem_of_mem_lines hline' ht)

end Token

/-! ## Nesting -/

namespace Outline

/-- Only tags, without their places and indents, and with a function applied to their names. -/
def nesting (f : List Char → List Char) (hf : Function.Injective f) : Outline where
  text _ := none
  name name := ⟨0, f name.text⟩
  tag _ := ⟨0, []⟩
  indent _ := []
  beginsLine _ := false
  name_text_iff _ _ := hf.eq_iff

end Outline

namespace Token

/-- A tag of which nothing is known but its kind. -/
def ofTagKind (kind : TokenKind) : Token :=
  ⟨kind.mapIndent fun _ => [], ⟨0, []⟩, false⟩

/-- The nesting of tokens is told by their tags. -/
theorem filterMap_outline_nesting {f : List Char → List Char} (hf : Function.Injective f)
    (ts : List Token) :
    ts.filterMap (fun t => t.outline (.nesting f hf)) = (tagKinds f ts).map ofTagKind := by
  rw [tagKinds, List.map_filterMap]
  congr 1
  funext t
  obtain ⟨kind, whole, beginsLine⟩ := t
  cases kind <;> rfl

/-- Tokens that have indented lines have the same nesting after settling. -/
theorem outline_nesting_settle {w : List Char} {ts ts' : List Token}
    (h : List.Forall₂ (IndentedLine w) (lines ts) (lines ts')) :
    (settle ts').filterMap (fun t => t.outline (.nesting id Function.injective_id)) =
      (settle ts).filterMap
        fun t => t.outline (.nesting (afterNewlines w) (afterNewlines_injective w)) := by
  have hmap : ∀ (g : List Char → List Char) kind,
      ofTagKind (TokenKind.mapIndent g kind) = ofTagKind kind := by
    intro g kind
    cases kind <;> rfl
  have hline : ∀ line line', IndentedLine w line line' →
      (settleLine line).filterMap
          (fun t => t.outline (.nesting (afterNewlines w) (afterNewlines_injective w))) =
        (settleLine line').filterMap
          fun t => t.outline (.nesting id Function.injective_id) := by
    intro line line' hline
    rw [filterMap_outline_nesting, filterMap_outline_nesting, hline.tags, List.map_map]
    exact List.map_congr_left fun kind _ => (hmap _ kind).symm
  rw [settle, settle, List.filterMap_flatMap, List.filterMap_flatMap]
  generalize lines ts = ls, lines ts' = ls' at h
  induction h with
  | nil => rfl
  | cons hfirst _ ih => rw [List.flatMap_cons, List.flatMap_cons, ih, hline _ _ hfirst]

end Token

namespace Template

/-! ## Indented templates -/

/-- A template and all it is compiled from.  The tokens are cut into source lines. -/
structure CompiledFrom (pair : Delimiters) (source : String) (stream : Token.Stream)
    (nodes : List Node) (t : Template) : Prop where
  tokens : Token.ofSource pair source.toList = .ok stream
  sourceLine : ∀ line ∈ Token.lines stream.tokens, Token.IsSourceLine source.toList line
  nested : Node.ofTokens (Token.settle stream.tokens) = .ok nodes
  template : t = ⟨source, stream.live, Instr.ofNodes source.toList nodes⟩

theorem compiledFrom_of_ofTokens {pair : Delimiters} {source : String} {stream : Token.Stream}
    {nodes : List Node} (h : Token.ofSource pair source.toList = .ok stream)
    (hnodes : Node.ofTokens (Token.settle stream.tokens) = .ok nodes) :
    CompiledFrom pair source stream nodes
      ⟨source, stream.live, Instr.ofNodes source.toList nodes⟩ :=
  ⟨h, fun _ => Token.isSourceLine_of_mem_lines h, hnodes, rfl⟩

/-- A template that compiles is compiled from tokens and nodes. -/
theorem compile_eq_ok_iff {pair : Delimiters} {source : String} {t : Template} :
    compile pair source = .ok t ↔ ∃ stream nodes, CompiledFrom pair source stream nodes t := by
  constructor
  · intro h
    unfold compile at h
    split at h
    · rename_i nodes live htree
      obtain ⟨stream, hstream, rfl, hnodes⟩ := exists_of_tree_eq_ok htree
      cases h
      exact ⟨stream, nodes, compiledFrom_of_ofTokens hstream hnodes⟩
    · cases h
  · rintro ⟨stream, nodes, hfrom⟩
    rw [compile_of_ofTokens hfrom.tokens hfrom.nested, hfrom.template]

/-- What becomes of a template.  The pair at the end stays, and so do the tags and how the sections
nest, but for the indent behind the newlines of names.  Lines are indented one by one. -/
structure IndentedTemplate (w : List Char) (stream stream' : Token.Stream)
    (nodes nodes' : List Node) : Prop where
  live : stream'.live = stream.live
  tags : Token.tagKinds id stream'.tokens = Token.tagKinds (afterNewlines w) stream.tokens
  nesting : Node.outlineAll (.nesting id Function.injective_id) nodes' =
    Node.outlineAll (.nesting (afterNewlines w) (afterNewlines_injective w)) nodes
  lines : List.Forall₂ (Token.IndentedLine w) (Token.lines stream.tokens)
    (Token.lines stream'.tokens)

/-- The tokens of an indented source nest exactly if those of the source do. -/
theorem indentedTemplate_of_ofSource {w : List Char} (hne : w ≠ []) (hw : IsIndent w)
    {pair : Delimiters} {source : List Char} {stream stream' : Token.Stream}
    (h : Token.ofSource pair source = .ok stream)
    (h' : Token.ofSource pair (indentLines w source) = .ok stream') :
    ((∃ nodes, Node.ofTokens (Token.settle stream.tokens) = .ok nodes) ↔
      ∃ nodes', Node.ofTokens (Token.settle stream'.tokens) = .ok nodes') ∧
    ∀ nodes nodes', Node.ofTokens (Token.settle stream.tokens) = .ok nodes →
      Node.ofTokens (Token.settle stream'.tokens) = .ok nodes' →
        IndentedTemplate w stream stream' nodes nodes' := by
  obtain ⟨tokens, htokens, hcontents⟩ := Token.exists_ofSource_indentLines hne hw h
  obtain rfl : ⟨tokens, stream.live⟩ = stream' := Except.ok.inj (htokens.symm.trans h')
  have hlines := Token.forall₂_indentedLine hw.blank h h' hcontents
  have htrees :=
    (Node.withKind_ofTokens_of_outline_eq (Token.outline_nesting_settle hlines)).symm
  refine ⟨exists_eq_ok_iff_of_withKind_map_eq htrees, ?_⟩
  intro nodes nodes' hnodes hnodes'
  rw [hnodes, hnodes'] at htrees
  refine ⟨rfl, ?_, (Except.ok.inj htrees).symm, hlines⟩
  rw [← Token.tagKinds_outline, hcontents, Token.tagKinds_behindIndent]

/-- A source with an indent in front of every line compiles exactly if the source does.  Then both
templates are the same but for literal text: they have the same tags in the same nesting and the
same pair at the end, their lines are standalone together, and the indent goes to the inclusions of
standalone lines, and in front of the literal text of the others. -/
theorem compile_indented (pair : Delimiters) (indent source : String) (hne : indent.toList ≠ [])
    (hindent : IsIndent indent.toList) :
    ((∃ t, compile pair source = .ok t) ↔ ∃ t, compile pair (indented indent source) = .ok t) ∧
    ∀ t t', compile pair source = .ok t → compile pair (indented indent source) = .ok t' →
      ∃ stream stream' nodes nodes', CompiledFrom pair source stream nodes t ∧
        CompiledFrom pair (indented indent source) stream' nodes' t' ∧
        IndentedTemplate indent.toList stream stream' nodes nodes' := by
  have htext : (indented indent source).toList = indentLines indent.toList source.toList := by
    rw [indented, String.toList_ofList]
  refine ⟨⟨?_, ?_⟩, ?_⟩
  · rintro ⟨t, ht⟩
    obtain ⟨stream, nodes, hfrom⟩ := compile_eq_ok_iff.1 ht
    obtain ⟨tokens, htokens, -⟩ := Token.exists_ofSource_indentLines hne hindent hfrom.tokens
    obtain ⟨nodes', hnodes'⟩ :=
      (indentedTemplate_of_ofSource hne hindent hfrom.tokens htokens).1.1 ⟨nodes, hfrom.nested⟩
    rw [← htext] at htokens
    exact ⟨_, compile_eq_ok_iff.2 ⟨_, nodes', compiledFrom_of_ofTokens htokens hnodes'⟩⟩
  · rintro ⟨t', ht'⟩
    obtain ⟨stream', nodes', hfrom'⟩ := compile_eq_ok_iff.1 ht'
    have htokens' := hfrom'.tokens
    rw [htext] at htokens'
    obtain ⟨stream, hstream⟩ := Token.exists_ofSource_of_indentLines hne hindent htokens'
    obtain ⟨nodes, hnodes⟩ :=
      (indentedTemplate_of_ofSource hne hindent hstream htokens').1.2 ⟨nodes', hfrom'.nested⟩
    exact ⟨_, compile_eq_ok_iff.2 ⟨stream, nodes, compiledFrom_of_ofTokens hstream hnodes⟩⟩
  · intro t t' ht ht'
    obtain ⟨stream, nodes, hfrom⟩ := compile_eq_ok_iff.1 ht
    obtain ⟨stream', nodes', hfrom'⟩ := compile_eq_ok_iff.1 ht'
    have htokens' := hfrom'.tokens
    rw [htext] at htokens'
    exact ⟨stream, stream', nodes, nodes', hfrom, hfrom',
      (indentedTemplate_of_ofSource hne hindent hfrom.tokens htokens').2 nodes nodes' hfrom.nested
        hfrom'.nested⟩

/-- A section whose name goes over two lines, around an inclusion on a line of its own and one
behind other tags. -/
theorem compile_indented_twoLineName :
    let source := "\x7b\x7b#a\nb\x7d\x7d\n \x7b\x7b>p\x7d\x7d\n\x7b\x7bc\x7d\x7d\x7b\x7b>q\x7d\x7d\n\x7b\x7b/a\nb\x7d\x7d"
    let name : Fragment := ⟨0, ['a', '\n', ' ', ' ', 'b']⟩
    "  ".toList ≠ [] ∧ IsIndent "  ".toList ∧
      ∃ t t' stream stream' nodes nodes', compile .standard source = .ok t ∧
        compile .standard (indented "  " source) = .ok t' ∧
        CompiledFrom .standard source stream nodes t ∧
        CompiledFrom .standard (indented "  " source) stream' nodes' t' ∧
        IndentedTemplate "  ".toList stream stream' nodes nodes' ∧
        Token.tagKinds id (Token.settle stream'.tokens) =
          [.sectionOpen .upright name, .inclusion ⟨0, ['p']⟩ [' ', ' ', ' '],
            .interpolation .escaped ⟨0, ['c']⟩, .inclusion ⟨0, ['q']⟩ [], .sectionClose name] := by
  intro source name
  have hne : "  ".toList ≠ [] := by decide
  have hindent : IsIndent "  ".toList := ⟨by decide, by decide⟩
  obtain ⟨hiff, hboth⟩ := compile_indented .standard "  " source hne hindent
  have hcompiles : (compile .standard source).toOption.isSome = true := by decide +kernel
  obtain ⟨t, ht⟩ : ∃ t, compile .standard source = .ok t := by
    cases h : compile .standard source with
    | error e =>
      rw [h] at hcompiles
      cases hcompiles
    | ok t => exact ⟨t, rfl⟩
  obtain ⟨t', ht'⟩ := hiff.1 ⟨t, ht⟩
  obtain ⟨stream, stream', nodes, nodes', hfrom, hfrom', hindented⟩ := hboth t t' ht ht'
  refine ⟨hne, hindent, t, t', stream, stream', nodes, nodes', ht, ht', hfrom, hfrom', hindented,
    ?_⟩
  have htags : (Token.ofSource .standard (indented "  " source).toList).map
      (fun s => Token.tagKinds id (Token.settle s.tokens)) =
        .ok [.sectionOpen .upright name, .inclusion ⟨0, ['p']⟩ [' ', ' ', ' '],
          .interpolation .escaped ⟨0, ['c']⟩, .inclusion ⟨0, ['q']⟩ [], .sectionClose name] := by
    decide +kernel
  rw [hfrom'.tokens] at htags
  exact Except.ok.inj htags

end Template

end Mustache
