import Mathlib.Data.List.SplitBy
import Mustache.Template

/-!
# Fragments stand in their source

Every fragment that belongs to a token or to a node of a template stands in the
source of the template, at the offset that it names.  Its span therefore cuts
its own text out of the source.

Main results:

- Theorem `Token.standsIn_of_ofSource`: the fragments of tokens stand in the source.
- Theorem `Node.fragmentsAll_subset_of_ofTokens`: nesting invents no fragments.
- Theorem `Template.standsIn_of_tree`: the fragments of the tree stand in the source.
-/

namespace Mustache

/-! ## Fragments in a source -/

/-- The fragment is a piece of the source, at the offset that it names. -/
def Fragment.StandsIn (source : List Char) (f : Fragment) : Prop :=
  ∃ before after, source = before ++ (f.text ++ after) ∧ f.start = Text.byteLength before

/-- The span of a fragment that stands in a source cuts out the fragment. -/
theorem Fragment.StandsIn.slice_span {source : List Char} {f : Fragment} (h : f.StandsIn source) :
    Text.slice f.span.start f.span.stop source = f.text := by
  obtain ⟨before, after, rfl, hstart⟩ := h
  exact slice_of_append before after f hstart

/-- Trimming the end of a text takes away an end of it. -/
theorem Text.exists_trimRight_append (cs : List Char) : ∃ blanks, trimRight cs ++ blanks = cs := by
  refine ⟨(cs.reverse.takeWhile isBlank).reverse, ?_⟩
  rw [trimRight, ← List.reverse_append, List.takeWhile_append_dropWhile, List.reverse_reverse]

/-- A text is what is left when it is trimmed, with blanks on both sides. -/
theorem Text.exists_eq_trim (cs : List Char) :
    ∃ blanks, cs = cs.takeWhile isBlank ++ (trim cs ++ blanks) := by
  obtain ⟨blanks, hblanks⟩ := exists_trimRight_append (trimLeft cs)
  refine ⟨blanks, ?_⟩
  rw [trim, hblanks, trimLeft, List.takeWhile_append_dropWhile]

/-- A name stands where its tag stands: behind the blanks at the beginning of the body. -/
theorem Fragment.StandsIn.trimmed {source : List Char} {f : Fragment} (h : f.StandsIn source) :
    f.trimmed.StandsIn source := by
  obtain ⟨before, after, hsource, hstart⟩ := h
  obtain ⟨blanks, htext⟩ := Text.exists_eq_trim f.text
  refine ⟨before ++ f.text.takeWhile Text.isBlank, blanks ++ after, ?_, ?_⟩
  · calc
      source = before ++
          ((f.text.takeWhile Text.isBlank ++ (Text.trim f.text ++ blanks)) ++ after) := by
        rw [← htext, hsource]
      _ = _ := by simp [Fragment.trimmed]
  · simp [Fragment.trimmed, hstart]

/-! ## Tokens -/

/-- The name that a token of this kind holds, if it holds one. -/
def TokenKind.names : TokenKind → List Fragment
  | .text | .comment | .setDelimiters => []
  | .interpolation _ name | .sectionOpen _ name | .sectionClose name | .inclusion name _ => [name]

namespace Token

/-- The fragments of a token: all that it covers, and its name. -/
def fragments (t : Token) : List Fragment :=
  t.whole :: t.kind.names

/-- The kind of a tag has no other name than the one it is given. -/
theorem names_kindOfTag_subset (sigil : Sigil) (name : Fragment) :
    (kindOfTag sigil name).names ⊆ [name] := by
  cases sigil <;> simp [kindOfTag, TokenKind.names]

/-- The fragments of a lexeme that is placed in a source stand in this source. -/
theorem standsIn_of_lexeme (before after : List Char) (l : Lexeme) (beginsLine : Bool) :
    ∀ f ∈ fragments ⟨kindOfLexeme (Text.byteLength before) l, ⟨Text.byteLength before, l.chars⟩,
      beginsLine⟩, f.StandsIn (before ++ (l.chars ++ after)) := by
  intro f hf
  rcases List.mem_cons.1 hf with rfl | hname
  · exact ⟨before, after, rfl, rfl⟩
  · cases l with
    | text chars => simp [kindOfLexeme, TokenKind.names] at hname
    | tag pair sigil body =>
      rw [kindOfLexeme] at hname
      have hf := List.mem_singleton.1 (names_kindOfTag_subset _ _ hname)
      rw [hf]
      refine Fragment.StandsIn.trimmed ⟨before ++ (pair.left.chars ++ sigil.mark),
        sigil.terminator pair ++ after, ?_, ?_⟩
      · simp [Lexeme.chars]
      · simp [Nat.add_assoc]

/-- The fragments of placed lexemes stand in the source that the lexemes make up. -/
theorem standsIn_of_ofLexemes (before : List Char) (beginsLine : Bool) (ls : List Lexeme) :
    ∀ t ∈ ofLexemes (Text.byteLength before) beginsLine ls, ∀ f ∈ t.fragments,
      f.StandsIn (before ++ ls.flatMap Lexeme.chars) := by
  induction ls generalizing before beginsLine with
  | nil =>
    intro t ht
    simp [ofLexemes] at ht
  | cons l ls ih =>
    intro t ht f hf
    rw [List.flatMap_cons]
    rcases List.mem_cons.1 ht with rfl | ht
    · exact standsIn_of_lexeme before _ l beginsLine f hf
    · have hstop : Fragment.stop ⟨Text.byteLength before, l.chars⟩ =
          Text.byteLength (before ++ l.chars) := by
        simp [Fragment.stop]
      rw [hstop] at ht
      rw [← List.append_assoc]
      exact ih (before ++ l.chars) _ t ht f hf

/-- The fragments of the tokens of a source stand in it. -/
theorem standsIn_of_ofSource {pair : Delimiters} {source : List Char} {stream : Stream}
    (h : ofSource pair source = .ok stream) :
    ∀ t ∈ stream.tokens, ∀ f ∈ t.fragments, f.StandsIn source := by
  obtain ⟨hending, htokens⟩ := ofScan_eq_ok h
  have hsource := Scan.flatMap_chars_read hending
  rw [htokens]
  have hstands := standsIn_of_ofLexemes [] true (Scan.read pair source).lexemes
  rw [hsource] at hstands
  exact hstands

/-! ## Standalone lines -/

/-- Indenting inclusions and dropping text leaves no new fragments. -/
theorem fragments_dropText_subset (indent : List Char) (line : List Token) :
    (dropText indent line).flatMap fragments ⊆ line.flatMap fragments := by
  induction line generalizing indent with
  | nil => simp [dropText]
  | cons t ts ih =>
    rw [dropText, List.flatMap_cons]
    split
    · exact fun f hf => List.mem_append_right _ (ih _ hf)
    · rename_i name old hkind
      rw [List.flatMap_cons]
      have hsame : fragments { t with kind := .inclusion name indent } = t.fragments := by
        simp [fragments, hkind, TokenKind.names]
      rw [hsame]
      exact List.append_subset.2 ⟨List.subset_append_left _ _,
        fun f hf => List.mem_append_right _ (ih _ hf)⟩
    · rw [List.flatMap_cons]
      exact List.append_subset.2 ⟨List.subset_append_left _ _,
        fun f hf => List.mem_append_right _ (ih _ hf)⟩

/-- Settling lines leaves no new fragments. -/
theorem fragments_settle_subset (tokens : List Token) :
    (settle tokens).flatMap fragments ⊆ tokens.flatMap fragments := by
  intro f hf
  rw [settle, List.flatMap_assoc] at hf
  obtain ⟨line, hline, hf⟩ := List.mem_flatMap.1 hf
  have hmem : f ∈ line.flatMap fragments := by
    rw [settleLine] at hf
    split at hf
    · exact fragments_dropText_subset [] line hf
    · exact hf
  obtain ⟨t, ht, hft⟩ := List.mem_flatMap.1 hmem
  refine List.mem_flatMap.2 ⟨t, ?_, hft⟩
  rw [← List.flatten_splitBy (fun _ (next : Token) => !next.beginsLine) tokens]
  exact List.mem_flatten.2 ⟨line, hline, ht⟩

end Token

/-! ## Nodes -/

namespace Node

mutual

/-- The fragments of a node and of the nodes inside it. -/
def fragments : Node → List Fragment
  | .text whole => [whole]
  | .interpolation _ name whole => [name, whole]
  | .block _ name opening closing body => name :: opening :: closing :: fragmentsAll body
  | .inclusion name _ whole => [name, whole]

/-- The fragments of the nodes of a body. -/
def fragmentsAll : List Node → List Fragment
  | [] => []
  | n :: ns => n.fragments ++ fragmentsAll ns

end

theorem fragmentsAll_append (xs ys : List Node) :
    fragmentsAll (xs ++ ys) = fragmentsAll xs ++ fragmentsAll ys := by
  induction xs with
  | nil => rfl
  | cons n ns ih => rw [List.cons_append, fragmentsAll, fragmentsAll, ih, List.append_assoc]

/-- The order of nodes does not matter for their fragments. -/
theorem fragmentsAll_reverse_subset (ns : List Node) :
    fragmentsAll ns.reverse ⊆ fragmentsAll ns := by
  induction ns with
  | nil => exact List.nil_subset _
  | cons n ns ih =>
    rw [List.reverse_cons, fragmentsAll_append, fragmentsAll]
    refine List.append_subset.2 ⟨fun f hf => List.mem_append_right _ (ih hf), ?_⟩
    simp [fragmentsAll]

end Node

namespace Nesting

/-- The fragments of an open section and of the nodes before it. -/
def sectionFragments (s : OpenSection) : List Fragment :=
  s.name :: s.opening :: Node.fragmentsAll s.before

/-- The fragments of all that has been read. -/
def fragments (n : Nesting) : List Fragment :=
  n.opened.flatMap sectionFragments ++ Node.fragmentsAll n.nodes

/-- Closing a section leaves no other fragments than those of the close tag. -/
theorem fragments_close_subset {n next : Nesting} {name closing : Fragment}
    (h : n.close name closing = .ok next) : next.fragments ⊆ closing :: n.fragments := by
  unfold close at h
  split at h
  · cases h
  · rename_i s outer hopened
    split at h
    · cases h
      have hbody := Node.fragmentsAll_reverse_subset n.nodes
      intro f hf
      simp only [fragments, Node.fragmentsAll, Node.fragments, List.mem_append,
        List.mem_cons] at hf
      simp only [fragments, hopened, sectionFragments, List.flatMap_cons, List.mem_append,
        List.mem_cons]
      have := @hbody f
      tauto
    · cases h

/-- Taking up a token leaves no other fragments than those of the token. -/
theorem fragments_step_subset {n next : Nesting} {t : Token} (h : n.step t = .ok next) :
    next.fragments ⊆ t.fragments ++ n.fragments := by
  unfold step at h
  cases hkind : t.kind with
  | sectionClose name =>
    rw [hkind] at h
    intro f hf
    have hmem := fragments_close_subset h hf
    simp only [Token.fragments, List.mem_append, List.mem_cons] at hmem ⊢
    tauto
  | _ =>
    rw [hkind] at h
    cases h
    intro f hf
    simp only [fragments, push, Token.fragments, hkind, TokenKind.names, Node.fragmentsAll,
      Node.fragments, sectionFragments, List.flatMap_cons, List.mem_append, List.mem_cons,
      List.not_mem_nil] at hf ⊢
    tauto

/-- Taking up tokens leaves no other fragments than those of the tokens. -/
theorem fragments_run_subset {n last : Nesting} {ts : List Token} (h : n.run ts = .ok last) :
    last.fragments ⊆ ts.flatMap Token.fragments ++ n.fragments := by
  induction ts generalizing n with
  | nil =>
    cases h
    exact List.subset_append_right _ _
  | cons t ts ih =>
    rw [run] at h
    cases hstep : n.step t with
    | error flaw =>
      rw [hstep] at h
      cases h
    | ok next =>
      rw [hstep] at h
      intro f hf
      have hnext := @fragments_step_subset n next t hstep f
      have hmem := ih h hf
      simp only [List.flatMap_cons, List.mem_append] at hmem hnext ⊢
      tauto

end Nesting

/-- The tree has no other fragments than the tokens from which it grows. -/
theorem Node.fragmentsAll_subset_of_ofTokens {tokens : List Token} {nodes : List Node}
    (h : ofTokens tokens = .ok nodes) :
    fragmentsAll nodes ⊆ tokens.flatMap Token.fragments := by
  unfold ofTokens at h
  cases hrun : Nesting.empty.run tokens with
  | error flaw =>
    rw [hrun] at h
    cases h
  | ok last =>
    rw [hrun] at h
    replace h : last.finish = .ok nodes := h
    unfold Nesting.finish at h
    split at h
    · rename_i hopened
      cases h
      intro f hf
      have hmem := Nesting.fragments_run_subset hrun (List.mem_append_right _
        (fragmentsAll_reverse_subset _ hf))
      simpa [Nesting.fragments, Nesting.empty, fragmentsAll] using hmem
    · cases h

namespace Template

/-- A tree comes from tokens whose lines are settled. -/
theorem exists_of_tree_eq_ok {pair live : Delimiters} {source : List Char} {nodes : List Node}
    (h : tree pair source = .ok (nodes, live)) :
    ∃ stream, Token.ofSource pair source = .ok stream ∧ stream.live = live ∧
      Node.ofTokens (Token.settle stream.tokens) = .ok nodes := by
  unfold tree at h
  cases hstream : Token.ofSource pair source with
  | error flaw =>
    rw [hstream] at h
    cases h
  | ok stream =>
    rw [hstream] at h
    replace h : (Node.ofTokens (Token.settle stream.tokens)).map
      (fun nodes => (nodes, stream.live)) = .ok (nodes, live) := h
    cases hnodes : Node.ofTokens (Token.settle stream.tokens) with
    | error flaw =>
      rw [hnodes] at h
      cases h
    | ok ns =>
      rw [hnodes] at h
      cases h
      exact ⟨stream, rfl, rfl, hnodes⟩

/-- The fragments of the tree of a source stand in it. -/
theorem standsIn_of_tree {pair live : Delimiters} {source : List Char} {nodes : List Node}
    (h : tree pair source = .ok (nodes, live)) :
    ∀ f ∈ Node.fragmentsAll nodes, f.StandsIn source := by
  obtain ⟨stream, hstream, -, hnodes⟩ := exists_of_tree_eq_ok h
  intro f hf
  have hsettled := Node.fragmentsAll_subset_of_ofTokens hnodes hf
  obtain ⟨t, ht, hft⟩ := List.mem_flatMap.1 (Token.fragments_settle_subset _ hsettled)
  exact Token.standsIn_of_ofSource hstream t ht f hft

end Template

end Mustache
