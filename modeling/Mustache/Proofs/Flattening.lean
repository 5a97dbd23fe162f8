import Mustache.Proofs.SectionText

/-!
# Trees in order

A tree can be listed in order: a section by its open tag, its body and its close tag.
This undoes the nesting, so the list is that of the tokens from which the tree has
grown, comments and set delimiter tags left out.  Nodes therefore stand in the source
in the order of the tree, one behind the other, and the body of a section stands
between the tags of the section.

Main results:

- Theorem `Grows.partsAll_eq`: a tree that is listed in order is the list of its tokens.
- Theorem `Grows.pairwise_precedes`: nodes of one body stand one behind the other.
- Theorem `Node.laidOut_of_within`: a section stands around its body.
- Theorem `Node.listed_of_ofTokens`: all of this for the tree of a source.
-/

namespace Mustache

/-! ## Listing a tree -/

/-- A part of a tree that is listed in order: a leaf, or one of the two tags of a section. -/
inductive TreePart where
  | text (whole : Fragment)
  | interpolation (escaping : Escaping) (name whole : Fragment)
  | inclusion (name : Fragment) (indent : List Char) (whole : Fragment)
  | opening (polarity : Polarity) (name whole : Fragment)
  /-- A close tag.  It shows the text of its name, which is that of the section. -/
  | closing (name : List Char) (whole : Fragment)
deriving DecidableEq

/-- What a token is a part of a tree as.  Comments and set delimiter tags are none. -/
def Token.part? (t : Token) : Option TreePart :=
  match t.kind with
  | .text => some (.text t.whole)
  | .interpolation escaping name => some (.interpolation escaping name t.whole)
  | .inclusion name indent => some (.inclusion name indent t.whole)
  | .sectionOpen polarity name => some (.opening polarity name t.whole)
  | .sectionClose name => some (.closing name.text t.whole)
  | .comment | .setDelimiters => none

namespace Node

mutual

/-- A node in order.  A section is listed with the kind and the name that it has got from its open
tag. -/
def parts : Node → List TreePart
  | .text whole => [.text whole]
  | .interpolation escaping name whole => [.interpolation escaping name whole]
  | .inclusion name indent whole => [.inclusion name indent whole]
  | .block polarity name opening closing body =>
    .opening polarity name opening :: (partsAll body ++ [.closing name.text closing])

/-- The nodes of a body in order. -/
def partsAll : List Node → List TreePart
  | [] => []
  | n :: ns => parts n ++ partsAll ns

end

/-- A token that becomes a leaf is listed as this leaf. -/
theorem parts_of_leaf? {t : Token} {n : Node} (h : t.leaf? = some n) :
    ∃ part, t.part? = some part ∧ n.parts = [part] := by
  unfold Token.leaf? at h
  unfold Token.part?
  split at h <;> cases h <;> simp_all [parts]

end Node

/-- A silent token is not listed. -/
theorem Token.part?_of_isSilent {t : Token} (h : t.IsSilent) : t.part? = none := by
  rcases h with h | h <;> simp [part?, h]

namespace Grows

variable {ts : List Token} {ns : List Node}

/-- A tree that is listed in order is the list of the tokens from which it has grown. -/
theorem partsAll_eq (h : Grows ts ns) : Node.partsAll ns = ts.filterMap Token.part? := by
  induction h with
  | nil => rfl
  | silent ht _ ih => rw [List.filterMap_cons_none (Token.part?_of_isSilent ht), ih]
  | leaf ht _ ih =>
    obtain ⟨part, hpart, hparts⟩ := Node.parts_of_leaf? ht
    rw [List.filterMap_cons_some hpart, Node.partsAll, hparts, ih]
    rfl
  | @block o c inner ts body ns polarity name name' hopen hclose hname _ _ ihbody ih =>
    have hopening : o.part? = some (.opening polarity name o.whole) := by
      simp [Token.part?, hopen]
    have hclosing : c.part? = some (.closing name.text c.whole) := by
      simp [Token.part?, hclose, hname]
    rw [List.filterMap_cons_some hopening, List.filterMap_append,
      List.filterMap_cons_some hclosing, ← ihbody, ← ih]
    simp [Node.partsAll, Node.parts]

end Grows

/-! ## Places of nodes -/

/-- The fragment begins and ends inside a stretch. -/
def Fragment.Inside (s : Span) (f : Fragment) : Prop :=
  s.start ≤ f.start ∧ f.stop ≤ s.stop

/-- What is inside a stretch is inside every longer one. -/
theorem Fragment.Inside.mono {s s' : Span} {f : Fragment} (h : f.Inside s)
    (hstart : s'.start ≤ s.start) (hstop : s.stop ≤ s'.stop) : f.Inside s' :=
  ⟨hstart.trans h.1, h.2.trans hstop⟩

/-- A fragment is inside its own span. -/
theorem Fragment.inside_span (f : Fragment) : f.Inside f.span :=
  ⟨le_rfl, le_rfl⟩

/-- A fragment does not end before it begins. -/
theorem Fragment.start_le_stop (f : Fragment) : f.start ≤ f.stop :=
  Nat.le_add_right _ _

/-- The stretch that a node covers: a section covers its tags and all between them. -/
def Node.extent : Node → Span
  | .text whole | .interpolation _ _ whole | .inclusion _ _ whole => whole.span
  | .block _ _ opening closing _ => ⟨opening.start, closing.stop⟩

/-- The node ends before the other one begins. -/
def Node.Precedes (m n : Node) : Prop :=
  m.extent.stop ≤ n.extent.start

/-- The node covers all its fragments, those of the nodes inside it included, and is not empty. -/
structure Node.Covers (n : Node) : Prop where
  long : n.extent.start < n.extent.stop
  fragments : ∀ f ∈ n.fragments, f.Inside n.extent

/-- The raw text of a section stands between its tags, and around all that the section holds: its
nodes, which stand one behind the other, and the raw texts of the sections inside. -/
structure Node.LaidOut (source : List Char) (opening closing raw : Fragment) (body : List Node) :
    Prop where
  span : raw.span = ⟨opening.stop, closing.start⟩
  standsIn : raw.StandsIn source
  siblings : body.Pairwise Node.Precedes
  inside : ∀ f ∈ Node.fragmentsAll body, f.Inside raw.span
  sections : ∀ polarity name opening' closing' inner,
    (Node.block polarity name opening' closing' inner).Within body →
    (Fragment.between source opening'.stop closing'.start).Inside raw.span

/-! ## Places of tokens -/

/-- A fragment that is trimmed stays inside. -/
theorem Fragment.inside_trimmed (f : Fragment) : f.trimmed.Inside f.span := by
  obtain ⟨blanks, htext⟩ := Text.exists_eq_trim f.text
  have hlength := congrArg Text.byteLength htext
  simp only [Text.byteLength_append] at hlength
  simp only [Inside, trimmed, span, stop]
  omega

namespace Token

/-- A token covers its fragments, and is not empty. -/
structure Covers (t : Token) : Prop where
  long : t.whole.start < t.whole.stop
  fragments : ∀ f ∈ t.fragments, f.Inside t.whole.span

/-- A lexeme in its place covers its name. -/
theorem covers_of_lexeme {t : Token} {l : Lexeme} (hne : l.chars ≠ [])
    (hkind : t.kind = kindOfLexeme t.whole.start l) (htext : t.whole.text = l.chars) :
    t.Covers := by
  have hlong : t.whole.start < t.whole.stop := by
    rw [Fragment.stop, htext]
    exact Nat.lt_add_of_pos_right (Text.byteLength_pos hne)
  refine ⟨hlong, fun f hf => ?_⟩
  rcases List.mem_cons.1 hf with rfl | hf
  · exact ⟨le_rfl, le_rfl⟩
  · cases l with
    | text chars => simp [hkind, kindOfLexeme, TokenKind.names] at hf
    | tag pair sigil body =>
      rw [hkind, kindOfLexeme] at hf
      rw [List.mem_singleton.1 (names_kindOfTag_subset _ _ hf)]
      obtain ⟨hstart, hstop⟩ := Fragment.inside_trimmed ⟨t.whole.start +
        Text.byteLength pair.left.chars + Text.byteLength sigil.mark, body⟩
      simp only [Fragment.span, Fragment.stop] at hstart hstop
      have hlength := congrArg Text.byteLength htext
      simp only [Lexeme.chars, Text.byteLength_append] at hlength
      simp only [Fragment.Inside, Fragment.span, Fragment.stop]
      omega

/-- The tokens of a source cover their fragments. -/
theorem covers_of_ofSource {pair : Delimiters} {source : List Char} {stream : Stream}
    (h : ofSource pair source = .ok stream) : ∀ t ∈ stream.tokens, t.Covers := by
  intro t ht
  obtain ⟨l, hne, hkind, htext⟩ := exists_lexeme_of_ofSource h ht
  exact covers_of_lexeme hne hkind htext

namespace SettlesTo

variable {ts us : List Token}

/-- What is left has the fragments that it had. -/
theorem exists_fragments_eq (h : SettlesTo ts us) {u : Token} (hu : u ∈ us) :
    ∃ t ∈ ts, t.fragments = u.fragments := by
  induction h with
  | nil => cases hu
  | kept t _ ih =>
    rcases List.mem_cons.1 hu with rfl | hu
    · exact ⟨u, List.mem_cons_self, rfl⟩
    · obtain ⟨t', ht', heq⟩ := ih hu
      exact ⟨t', List.mem_cons_of_mem _ ht', heq⟩
  | taken _ _ ih =>
    obtain ⟨t', ht', heq⟩ := ih hu
    exact ⟨t', List.mem_cons_of_mem _ ht', heq⟩
  | indented _ ht _ ih =>
    rcases List.mem_cons.1 hu with rfl | hu
    · exact ⟨_, List.mem_cons_self, by simp [fragments, ht, TokenKind.names]⟩
    · obtain ⟨t', ht', heq⟩ := ih hu
      exact ⟨t', List.mem_cons_of_mem _ ht', heq⟩

/-- What is left of tokens that cover their fragments covers them as well. -/
theorem covers (h : SettlesTo ts us) (hts : ∀ t ∈ ts, t.Covers) : ∀ u ∈ us, u.Covers := by
  intro u hu
  obtain ⟨t, ht, heq⟩ := h.exists_fragments_eq hu
  obtain ⟨hwhole, -⟩ := List.cons.inj heq
  obtain ⟨hlong, hfragments⟩ := hts t ht
  rw [heq, hwhole] at hfragments
  rw [hwhole] at hlong
  exact ⟨hlong, hfragments⟩

/-- What is left of tokens in order is in order. -/
theorem pairwise_precedes (h : SettlesTo ts us) (hts : ts.Pairwise Precedes) :
    us.Pairwise Precedes := by
  induction h with
  | nil => exact .nil
  | kept t rest ih =>
    obtain ⟨hfirst, hts⟩ := List.pairwise_cons.1 hts
    refine List.pairwise_cons.2 ⟨fun u hu => ?_, ih hts⟩
    obtain ⟨t', ht', hwhole⟩ := rest.exists_whole_eq hu
    have hprecedes := hfirst t' ht'
    rwa [Precedes, hwhole] at hprecedes
  | taken _ _ ih => exact ih (List.pairwise_cons.1 hts).2
  | indented _ _ rest ih =>
    obtain ⟨hfirst, hts⟩ := List.pairwise_cons.1 hts
    refine List.pairwise_cons.2 ⟨fun u hu => ?_, ih hts⟩
    obtain ⟨t', ht', hwhole⟩ := rest.exists_whole_eq hu
    have hprecedes := hfirst t' ht'
    rwa [Precedes, hwhole] at hprecedes

end SettlesTo

/-- Tokens that are left of a source when its lines are settled are in order. -/
theorem pairwise_precedes_settle {pair : Delimiters} {source : List Char} {stream : Stream}
    (h : ofSource pair source = .ok stream) : (settle stream.tokens).Pairwise Precedes :=
  (settlesTo_settle (unindented_of_ofSource h)).pairwise_precedes (pairwise_precedes_of_ofSource h)

end Token

/-! ## Nodes in order -/

namespace Grows

variable {ts : List Token} {ns : List Node}

/-- A leaf covers what its token covers. -/
theorem extent_of_leaf? {t : Token} {n : Node} (h : t.leaf? = some n) :
    n.extent = t.whole.span := by
  unfold Token.leaf? at h
  split at h <;> cases h <;> rfl

/-- A node begins with a token and ends with a token. -/
theorem exists_ends (h : Grows ts ns) {n : Node} (hn : n ∈ ns) :
    ∃ first ∈ ts, ∃ last ∈ ts, n.extent = ⟨first.whole.start, last.whole.stop⟩ := by
  induction h with
  | nil => cases hn
  | silent _ _ ih =>
    obtain ⟨first, hfirst, last, hlast, heq⟩ := ih hn
    exact ⟨first, List.mem_cons_of_mem _ hfirst, last, List.mem_cons_of_mem _ hlast, heq⟩
  | @leaf t _ _ _ ht _ ih =>
    rcases List.mem_cons.1 hn with rfl | hn
    · exact ⟨t, List.mem_cons_self, t, List.mem_cons_self, extent_of_leaf? ht⟩
    · obtain ⟨first, hfirst, last, hlast, heq⟩ := ih hn
      exact ⟨first, List.mem_cons_of_mem _ hfirst, last, List.mem_cons_of_mem _ hlast, heq⟩
  | @block o c _ _ _ _ _ _ _ _ _ _ _ _ _ ih =>
    rcases List.mem_cons.1 hn with rfl | hn
    · exact ⟨o, by simp, c, by simp, rfl⟩
    · obtain ⟨first, hfirst, last, hlast, heq⟩ := ih hn
      exact ⟨first, by simp [hfirst], last, by simp [hlast], heq⟩

/-- Nodes of one body stand one behind the other, as their tokens do. -/
theorem pairwise_precedes (h : Grows ts ns) (hts : ts.Pairwise Token.Precedes) :
    ns.Pairwise Node.Precedes := by
  induction h with
  | nil => exact .nil
  | silent _ _ ih => exact ih (List.pairwise_cons.1 hts).2
  | leaf ht rest ih =>
    obtain ⟨hfirst, hts⟩ := List.pairwise_cons.1 hts
    refine List.pairwise_cons.2 ⟨fun n hn => ?_, ih hts⟩
    obtain ⟨first, hmem, last, -, heq⟩ := rest.exists_ends hn
    rw [Node.Precedes, extent_of_leaf? ht, heq]
    exact (hfirst first hmem).2
  | @block o c inner ts body ns _ _ _ _ _ _ _ rest _ ih =>
    have htail := (List.pairwise_append.1 (List.pairwise_cons.1 hts).2).2.1
    obtain ⟨hclosing, hts⟩ := List.pairwise_cons.1 htail
    refine List.pairwise_cons.2 ⟨fun n hn => ?_, ih hts⟩
    obtain ⟨first, hmem, last, -, heq⟩ := rest.exists_ends hn
    rw [Node.Precedes, heq]
    exact (hclosing first hmem).2

/-- At every depth, a node is a leaf that a token has become, or a section. -/
theorem leaf_or_block (h : Grows ts ns) :
    Node.Everywhere (fun n => (∃ t ∈ ts, t.leaf? = some n) ∨
      ∃ polarity name opening closing body, n = .block polarity name opening closing body) ns :=
  h.everywhere (fun t ht _ hn => .inl ⟨t, ht, hn⟩)
    fun polarity name opening closing body => .inr ⟨polarity, name, opening, closing, body, rfl⟩

end Grows

namespace Node

/-- A node inside one that stands inside others stands inside these. -/
theorem Within.trans {m n : Node} {ns : List Node} (hm : m.Within n.body) (hn : n.Within ns) :
    m.Within ns := by
  induction hn with
  | here h => exact .inside h hm
  | inside h _ ih => exact .inside h ih

/-- The fragments of the nodes of a body are those of its nodes. -/
theorem mem_fragmentsAll_iff {f : Fragment} {ns : List Node} :
    f ∈ fragmentsAll ns ↔ ∃ n ∈ ns, f ∈ n.fragments := by
  induction ns with
  | nil => simp [fragmentsAll]
  | cons n ns ih => simp [fragmentsAll, ih]

/-- A node has all fragments of the nodes inside it. -/
theorem fragmentsAll_body_subset (n : Node) : fragmentsAll n.body ⊆ n.fragments := by
  intro f hf
  cases n <;> simp_all [body, fragmentsAll, fragments]

/-- The fragments of a node that stands inside others are among those of the others. -/
theorem Within.fragments_subset {n : Node} {ns : List Node} (h : n.Within ns) :
    n.fragments ⊆ fragmentsAll ns := by
  intro f hf
  induction h with
  | here h => exact mem_fragmentsAll_iff.2 ⟨n, h, hf⟩
  | @inside _ m hm _ ih => exact mem_fragmentsAll_iff.2 ⟨m, hm, fragmentsAll_body_subset m ih⟩

/-- A leaf has the fragments of its token. -/
theorem fragments_of_leaf? {t : Token} {n : Node} (h : t.leaf? = some n) :
    n.fragments ⊆ t.fragments := by
  unfold Token.leaf? at h
  split at h <;> cases h <;> simp_all [fragments, Token.fragments, TokenKind.names]

section

variable {pair : Delimiters} {source : List Char} {stream : Token.Stream} {ns body : List Node}
  {polarity : Polarity} {name opening closing : Fragment}

/-- The raw text of a section runs from the end of its open tag to the beginning of its close
tag. -/
theorem span_between_of_within (h : Token.ofSource pair source = .ok stream)
    (hns : Grows (Token.settle stream.tokens) ns)
    (hwithin : (block polarity name opening closing body).Within ns) :
    (Fragment.between source opening.stop closing.start).StandsIn source ∧
      (Fragment.between source opening.stop closing.start).span =
        ⟨opening.stop, closing.start⟩ := by
  obtain ⟨sec, -, -, rfl, rfl, -, -⟩ := Token.SectionTokens.exists_of_grows h hns hwithin
  obtain ⟨hstands, hraw⟩ := sec.between_eq_raw h
  rw [hraw]
  exact ⟨hstands, congrArg (Span.mk _) (sec.exists_source_eq h).2.1⟩

/-- The tags of a section stand around its body, and cover its name. -/
theorem around_body_of_within (h : Token.ofSource pair source = .ok stream)
    (hns : Grows (Token.settle stream.tokens) ns)
    (hwithin : (block polarity name opening closing body).Within ns) :
    body.Pairwise Precedes ∧ name.Inside opening.span ∧ opening.start < opening.stop ∧
      opening.stop ≤ closing.start ∧
      ∀ f ∈ fragmentsAll body, f.Inside ⟨opening.stop, closing.start⟩ := by
  obtain ⟨before, o, inner, c, after, name', hsettle, hopen, rfl, hclose, rfl, hname, hbody⟩ :=
    hns.exists_split hwithin
  have hcovers := (Token.settlesTo_settle (Token.unindented_of_ofSource h)).covers
    (Token.covers_of_ofSource h)
  have horder := Token.pairwise_precedes_settle h
  rw [hsettle] at hcovers horder
  obtain ⟨-, horder, -⟩ := List.pairwise_append.1 horder
  obtain ⟨hopening, horder⟩ := List.pairwise_cons.1 horder
  obtain ⟨hinner, -, hclosing⟩ := List.pairwise_append.1 horder
  obtain ⟨hlong, hofragments⟩ := hcovers o (by simp)
  refine ⟨hbody.pairwise_precedes hinner, ?_, hlong, (hopening c (by simp)).2, ?_⟩
  · exact hofragments name (by simp [Token.fragments, hopen, TokenKind.names])
  · intro f hf
    obtain ⟨t, ht, hft⟩ :=
      List.mem_flatMap.1 (fragmentsAll_subset_of_ofTokens (ofTokens_eq_ok_iff.2 hbody) hf)
    obtain ⟨hstart, hstop⟩ := (hcovers t (by simp [ht])).fragments f hft
    have hbehind := (hopening t (by simp [ht])).2
    have hbefore := (hclosing t ht c List.mem_cons_self).2
    exact ⟨hbehind.trans hstart, hstop.trans hbefore⟩

/-- A section stands around its body. -/
theorem laidOut_of_within (h : Token.ofSource pair source = .ok stream)
    (hns : Grows (Token.settle stream.tokens) ns)
    (hwithin : (block polarity name opening closing body).Within ns) :
    LaidOut source opening closing (Fragment.between source opening.stop closing.start) body := by
  obtain ⟨hstands, hspan⟩ := span_between_of_within h hns hwithin
  obtain ⟨hsiblings, -, -, -, hinside⟩ := around_body_of_within h hns hwithin
  rw [← hspan] at hinside
  refine ⟨hspan, hstands, hsiblings, hinside, ?_⟩
  intro polarity' name' opening' closing' inner hinner
  have hfragments := hinner.fragments_subset
  have hopening := hinside opening' (hfragments (by simp [fragments]))
  have hclosing := hinside closing' (hfragments (by simp [fragments]))
  obtain ⟨-, hspan'⟩ := span_between_of_within h hns (hinner.trans hwithin)
  obtain ⟨hstart', hstop'⟩ := Span.mk.inj hspan'
  unfold Fragment.Inside at *
  rw [hstart', hstop']
  simp only [Fragment.stop] at *
  omega

/-- Every node covers its fragments. -/
theorem covers_of_within (h : Token.ofSource pair source = .ok stream)
    (hns : Grows (Token.settle stream.tokens) ns) : Everywhere Covers ns := by
  intro n hn
  have hcovers := (Token.settlesTo_settle (Token.unindented_of_ofSource h)).covers
    (Token.covers_of_ofSource h)
  rcases hns.leaf_or_block n hn with ⟨t, ht, hleaf⟩ | ⟨polarity, name, opening, closing, body, rfl⟩
  · obtain ⟨hlong, hfragments⟩ := hcovers t ht
    refine ⟨?_, ?_⟩
    · rwa [Grows.extent_of_leaf? hleaf]
    · rw [Grows.extent_of_leaf? hleaf]
      exact fun f hf => hfragments f (fragments_of_leaf? hleaf hf)
  · obtain ⟨-, hname, hlong, hbetween, hinside⟩ := around_body_of_within h hns hn
    have hclosing := closing.start_le_stop
    have hstop : opening.stop ≤ closing.stop := hbetween.trans hclosing
    refine ⟨hlong.trans_le hstop, fun f hf => ?_⟩
    simp only [fragments, List.mem_cons] at hf
    rcases hf with rfl | rfl | rfl | hf
    · exact hname.mono le_rfl hstop
    · exact f.inside_span.mono le_rfl hstop
    · exact f.inside_span.mono (hlong.le.trans hbetween) le_rfl
    · exact (hinside f hf).mono hlong.le hclosing

/-- Take a source whose tokens nest once its lines are settled.  The tree that is listed in order is
the list of the tokens without comments and set delimiter tags.  Its nodes stand one behind the
other, and each covers all that it holds.  The raw text of every section runs from the end of its
open tag to the beginning of its close tag.  The nodes of its body stand inside it, one behind the
other, and so do the raw texts of the sections inside. -/
theorem listed_of_ofTokens (pair : Delimiters) (source : List Char) (stream : Token.Stream)
    (nodes : List Node) (hstream : Token.ofSource pair source = .ok stream)
    (hnodes : ofTokens (Token.settle stream.tokens) = .ok nodes) :
    partsAll nodes = (Token.settle stream.tokens).filterMap Token.part? ∧
      nodes.Pairwise Precedes ∧ Everywhere Covers nodes ∧
      ∀ polarity name opening closing body,
        (block polarity name opening closing body).Within nodes →
        ∃ raw, Instr.ofNode source (block polarity name opening closing body) =
            .block polarity (Reference.ofName name) raw (Instr.ofNodes source body) ∧
          LaidOut source opening closing raw body := by
  have hgrows := ofTokens_eq_ok_iff.1 hnodes
  refine ⟨hgrows.partsAll_eq, ?_, covers_of_within hstream hgrows, ?_⟩
  · exact hgrows.pairwise_precedes (Token.pairwise_precedes_settle hstream)
  · intro polarity name opening closing body hwithin
    exact ⟨_, rfl, laidOut_of_within hstream hgrows hwithin⟩

/-- A section on lines of its own around an inverted section, a comment and a newline. -/
theorem listed_of_ofTokens_two_levels :
    let source := ("\x7b\x7b#s\x7d\x7d\n\x7b\x7b^t\x7d\x7dé\x7b\x7b/t\x7d\x7d" ++
      "\x7b\x7b!c\x7d\x7d\n\x7b\x7b/s\x7d\x7d").toList
    let outer : Fragment := ⟨0, ['{', '{', '#', 's', '}', '}']⟩
    let outerEnd : Fragment := ⟨28, ['{', '{', '/', 's', '}', '}']⟩
    let inner : Fragment := ⟨7, ['{', '{', '^', 't', '}', '}']⟩
    let innerEnd : Fragment := ⟨15, ['{', '{', '/', 't', '}', '}']⟩
    let tokens : List Token :=
      [⟨.sectionOpen .upright ⟨3, ['s']⟩, outer, true⟩, ⟨.text, ⟨6, ['\n']⟩, false⟩,
        ⟨.sectionOpen .inverted ⟨10, ['t']⟩, inner, true⟩, ⟨.text, ⟨13, ['é']⟩, false⟩,
        ⟨.sectionClose ⟨18, ['t']⟩, innerEnd, false⟩,
        ⟨.comment, ⟨21, ['{', '{', '!', 'c', '}', '}']⟩, false⟩, ⟨.text, ⟨27, ['\n']⟩, false⟩,
        ⟨.sectionClose ⟨31, ['s']⟩, outerEnd, true⟩]
    let body : List Node :=
      [.block .inverted ⟨10, ['t']⟩ inner innerEnd [.text ⟨13, ['é']⟩], .text ⟨27, ['\n']⟩]
    let nodes : List Node := [.block .upright ⟨3, ['s']⟩ outer outerEnd body]
    (Token.ofSource .standard source = .ok ⟨tokens, .standard⟩ ∧
      ofTokens (Token.settle tokens) = .ok nodes) ∧
    partsAll nodes = [.opening .upright ⟨3, ['s']⟩ outer, .opening .inverted ⟨10, ['t']⟩ inner,
      .text ⟨13, ['é']⟩, .closing ['t'] innerEnd, .text ⟨27, ['\n']⟩, .closing ['s'] outerEnd] ∧
    ∃ raw, Instr.ofNode source (.block .upright ⟨3, ['s']⟩ outer outerEnd body) =
        .block .upright (Reference.ofName ⟨3, ['s']⟩) raw (Instr.ofNodes source body) ∧
      raw.span = ⟨6, 28⟩ ∧ LaidOut source outer outerEnd raw body := by
  intro source outer outerEnd inner innerEnd tokens body nodes
  have hstream : Token.ofSource .standard source = .ok ⟨tokens, .standard⟩ := by decide +kernel
  have hsettle : Token.settle tokens = tokens.eraseIdx 1 := by decide +kernel
  have hnodes : ofTokens (Token.settle tokens) = .ok nodes := by
    rw [hsettle]
    rfl
  obtain ⟨hparts, -, -, hsections⟩ :=
    listed_of_ofTokens .standard source ⟨tokens, .standard⟩ nodes hstream hnodes
  obtain ⟨raw, hraw, hlaidOut⟩ := hsections _ _ _ _ _ (.here List.mem_cons_self)
  refine ⟨⟨hstream, hnodes⟩, ?_, raw, hraw, ?_, hlaidOut⟩
  · rw [hparts, hsettle]
    decide
  · exact hlaidOut.span

end

end Node

end Mustache
