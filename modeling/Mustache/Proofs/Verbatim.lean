import Mustache.Proofs.Reading
import Mustache.Proofs.Refinement
import Mustache.Proofs.SourceLines

/-!
# Text without tags

A source in which the left marker does not occur has no tags.  Its tree is a row
of texts, and what is rendered from it is the source itself, whatever the view is
and whatever the engine keeps.

Main results:

- Theorem `Token.settle_of_forall_text`: lines without tags are settled as they are.
- Theorem `Template.exists_tree_of_absent`: the tree of a source without tags.
- Theorem `Evaluation.ofTree_text`: a row of texts evaluates to the texts.
-/

namespace Mustache

/-! ## Tokens -/

namespace Token

/-- A line of text is not standalone. -/
theorem isStandaloneLine_of_forall_text {line : List Token} (h : ∀ t ∈ line, t.kind = .text) :
    isStandaloneLine line = false := by
  have hnone : (line.any fun t => t.kind.isStandalone) = false := by
    rw [List.any_eq_false]
    intro t ht
    simp [h t ht, TokenKind.isStandalone]
  simp [isStandaloneLine, hnone]

/-- Lines without tags are settled as they are. -/
theorem settle_of_forall_text {tokens : List Token} (h : ∀ t ∈ tokens, t.kind = .text) :
    settle tokens = tokens := by
  have hsame : ∀ line ∈ lines tokens, settleLine line = line := by
    intro line hline
    apply settleLine_of_not_isStandaloneLine
    apply isStandaloneLine_of_forall_text
    exact fun t ht => h t (mem_of_mem_lines hline ht)
  calc
    settle tokens = (lines tokens).flatMap id := List.flatMap_congr hsame
    _ = tokens := by rw [List.flatMap_id, flatten_lines]

/-- The token of a lexeme of text is text. -/
theorem kind_of_mem_ofLexemes_text {start : Nat} {beginsLine : Bool} {texts : List (List Char)}
    {t : Token} (ht : t ∈ ofLexemes start beginsLine (texts.map Lexeme.text)) :
    t.kind = .text := by
  obtain ⟨l, hl, hkind, -⟩ := exists_of_mem_ofLexemes ht
  obtain ⟨chars, -, rfl⟩ := List.mem_map.1 hl
  exact hkind

end Token

/-! ## Trees -/

/-- Text is added to the innermost body. -/
theorem Nesting.run_of_forall_text {tokens : List Token} (h : ∀ t ∈ tokens, t.kind = .text)
    (n : Nesting) :
    n.run tokens =
      .ok { n with nodes := (tokens.map fun t => Node.text t.whole).reverse ++ n.nodes } := by
  induction tokens generalizing n with
  | nil => rfl
  | cons t ts ih =>
    have hstep : n.step t = .ok (n.push (.text t.whole)) := by
      rw [step, h t List.mem_cons_self]
    have hrest := ih (fun u hu => h u (List.mem_cons_of_mem _ hu)) (n.push (.text t.whole))
    rw [run, hstep]
    change (n.push (.text t.whole)).run ts = _
    rw [hrest]
    simp [push]

namespace Template

/-- A source in which the left marker does not occur is a row of texts. -/
theorem exists_tree_of_absent {pair : Delimiters} {source : List Char}
    (h : ¬ pair.left.chars <:+: source) :
    ∃ fragments : List Fragment, tree pair source = .ok (fragments.map Node.text, pair) ∧
      fragments.flatMap Fragment.text = source := by
  have hfinished : (Reading.start pair source).Finished := h
  obtain ⟨texts, hflatten, hscan⟩ := hfinished.scan
  replace hscan : Scan.read pair source = ⟨texts.map Lexeme.text, .finished pair⟩ := hscan
  let tokens := Token.ofLexemes 0 true (texts.map Lexeme.text)
  have htext : ∀ t ∈ tokens, t.kind = .text := fun t ht => Token.kind_of_mem_ofLexemes_text ht
  have hsource : Token.ofSource pair source = .ok ⟨tokens, pair⟩ := by
    rw [Token.ofSource, hscan]
    rfl
  refine ⟨tokens.map Token.whole, ?_, ?_⟩
  · rw [tree, hsource]
    show (Node.ofTokens (Token.settle tokens)).map _ = _
    rw [Token.settle_of_forall_text htext, Node.ofTokens, Nesting.run_of_forall_text htext]
    simp [Nesting.empty, Nesting.finish, Except.bind, Except.map]
  · calc
      (tokens.map Token.whole).flatMap Fragment.text
          = tokens.flatMap fun t => t.whole.text := List.flatMap_map ..
      _ = (texts.map Lexeme.text).flatMap Lexeme.chars := Token.flatMap_text_ofLexemes ..
      _ = source := by rw [flatMap_chars_text, hflatten]; rfl

end Template

/-! ## Evaluation -/

namespace Evaluation

variable {σ : Type} {w : World σ} {inner : Option (Inner σ)} {tree : Tree}

/-- A row of texts evaluates to the texts, one after the other. -/
theorem nodes_text (ctx : Context) (fragments : List Fragment) :
    nodes w inner tree ctx (fragments.map Node.text) =
      pure (fragments.flatMap Fragment.text) := by
  induction fragments with
  | nil => rw [List.map_nil, nodes, List.flatMap_nil]
  | cons f fs ih =>
    rw [List.map_cons, nodes, node, ih, List.flatMap_cons]
    rfl

/-- A tree without tags evaluates to its text, under every limit. -/
theorem ofTree_text (w : World σ) (depth : Nat) (ctx : Context) {fragments : List Fragment}
    (htree : tree.nodes = fragments.map Node.text) :
    ofTree w depth tree ctx = pure (fragments.flatMap Fragment.text) := by
  rw [ofTree_eq_nodes, htree, nodes_text]

/-- A source in which the left marker does not occur has a tree, which evaluates to the source. -/
theorem exists_ofTree_of_absent (w : World σ) {pair : Delimiters} {source : List Char}
    (h : ¬ pair.left.chars <:+: source) :
    ∃ tree, Tree.ofSource pair source = .ok tree ∧
      ∀ depth ctx, ofTree w depth tree ctx = pure source := by
  obtain ⟨fragments, htree, hsource⟩ := Template.exists_tree_of_absent h
  refine ⟨⟨source, fragments.map Node.text, pair⟩, ?_, ?_⟩
  · rw [Tree.ofSource, htree]
  · intro depth ctx
    rw [ofTree_text w depth ctx rfl, hsource]

end Evaluation

/-- After any requests, a source in which the left marker does not occur is rendered to itself. -/
theorem Session.render_of_absent {σ : Type} (host : Host σ) (delimiters : Delimiters) (limit : Nat)
    (init : σ) (history : List Request) (source : String) (view : Value)
    (h : ¬ delimiters.left.chars <:+: source.toList) :
    let s := ((Session.start delimiters limit init).answerAll host history).2
    ∃ a, Engine.render host source view ⟨s.engine, s.host, [], []⟩ = .ok source a := by
  intro s
  let w : World σ := ⟨delimiters, s.engine.partials, s.engine.limit, host⟩
  obtain ⟨tree, htree, heval⟩ := Evaluation.exists_ofTree_of_absent w h
  have hsource : Evaluation.ofTemplate w source view ⟨s.host, []⟩ =
      .ok source.toList ⟨s.host, []⟩ := by
    rw [Evaluation.ofTemplate, htree]
    dsimp only
    rw [heval]
    rfl
  obtain ⟨a, ha⟩ := Session.render_of_evaluation host delimiters limit init history source view
  refine ⟨a, ?_⟩
  rw [show Evaluation.ofTemplate _ source view _ = _ from hsource] at ha
  simpa using ha

end Mustache
