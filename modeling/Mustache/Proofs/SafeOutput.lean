import Mustache.Proofs.IndentedReading
import Mustache.Proofs.LambdaFree
import Mustache.Proofs.TokenContents

/-!
# Views inject no markup

Where all interpolations are escaped and no section is handed to a lambda, a rendered
text is composed of the literal texts of its sources, of entities, and of characters
that are not reserved.  A value of the view, also the text that a lambda has made up,
has no other way into the output than through an escape or as the text of a scalar.

Main results:

- Theorem `Html.Composed.mem_literal` and theorem `Html.Composed.exists_entity`: the reserved
  characters of a composed text come from literal texts, or begin an entity.
- Theorem `Value.ordinary_pieces`: numbers and truth values have no reserved character.
- Theorem `Evaluation.composes_ofTree`: trees evaluate to composed texts, to every depth.
- Theorem `Session.reserved_of_render`: so do renderings.
-/

namespace Mustache

/-! ## Composed texts -/

namespace Html

/-- No character of the text is reserved. -/
def Ordinary (cs : List Char) : Prop :=
  ∀ c ∈ cs, entity? c = none

@[simp]
theorem ordinary_nil : Ordinary [] :=
  nofun

@[simp]
theorem ordinary_cons {c : Char} {cs : List Char} :
    Ordinary (c :: cs) ↔ entity? c = none ∧ Ordinary cs := by
  simp only [Ordinary, List.mem_cons, forall_eq_or_imp]

@[simp]
theorem ordinary_append {xs ys : List Char} :
    Ordinary (xs ++ ys) ↔ Ordinary xs ∧ Ordinary ys := by
  simp only [Ordinary, List.mem_append, or_imp, forall_and]

/-- No blank is reserved. -/
theorem ordinary_of_allBlank {cs : List Char} (h : Text.AllBlank cs) : Ordinary cs := by
  intro c hc
  have hblank := h c hc
  unfold entity?
  split <;> first | rfl | exact absurd hblank (by decide)

/-- Texts that are composed of literal texts, of entities and of characters that are not
reserved. -/
inductive Composed (Literal : List Char → Prop) : List Char → Prop
  | nil : Composed Literal []
  | literal {cs rest : List Char} (h : Literal cs) (hrest : Composed Literal rest) :
      Composed Literal (cs ++ rest)
  | entity {c : Char} {entity rest : List Char} (h : entity? c = some entity)
      (hrest : Composed Literal rest) : Composed Literal (entity ++ rest)
  | ordinary {c : Char} {rest : List Char} (h : entity? c = none)
      (hrest : Composed Literal rest) : Composed Literal (c :: rest)

/-- An entity begins with an ampersand, and no other of its characters is reserved. -/
theorem exists_of_entity? {c : Char} {entity : List Char} (h : entity? c = some entity) :
    ∃ rest, entity = '&' :: rest ∧ Ordinary rest := by
  unfold entity? at h
  split at h <;> cases h <;> exact ⟨_, rfl, by simp [entity?]⟩

/-- A character that stands in two texts in a row, but not in the first one, stands in the second
one. -/
theorem exists_split_of_not_mem {c : Char} {xs ys before after : List Char} (hc : c ∉ xs)
    (h : xs ++ ys = before ++ c :: after) : ∃ before', ys = before' ++ c :: after := by
  rcases List.append_eq_append_iff.1 h with ⟨between, rfl, hys⟩ | ⟨between, rfl, hafter⟩
  · exact ⟨between, hys⟩
  · cases between with
    | nil => exact ⟨[], hafter.symm⟩
    | cons d between =>
      obtain ⟨rfl, -⟩ := List.cons.inj hafter
      simp at hc

namespace Composed

variable {Literal : List Char → Prop} {xs ys text : List Char}

/-- Composed texts in a row are composed. -/
theorem append (hx : Composed Literal xs) (hy : Composed Literal ys) :
    Composed Literal (xs ++ ys) := by
  induction hx with
  | nil => exact hy
  | literal h _ ih =>
    rw [List.append_assoc]
    exact .literal h ih
  | entity h _ ih =>
    rw [List.append_assoc]
    exact .entity h ih
  | ordinary h _ ih => exact .ordinary h ih

/-- A literal text is composed. -/
theorem of_literal (h : Literal text) : Composed Literal text := by
  simpa using Composed.literal h .nil

/-- A text without reserved characters is composed. -/
theorem of_ordinary (h : Ordinary text) : Composed Literal text := by
  induction text with
  | nil => exact .nil
  | cons c cs ih =>
    exact .ordinary (h c List.mem_cons_self) (ih fun d hd => h d (List.mem_cons_of_mem _ hd))

/-- An escaped text is composed, whatever text it is. -/
theorem escape (Literal : List Char → Prop) (cs : List Char) :
    Composed Literal (Html.escape cs) := by
  induction cs with
  | nil => exact .nil
  | cons c cs ih =>
    rw [Html.escape, List.flatMap_cons, ← Html.escape, escapeChar]
    cases h : entity? c with
    | none => exact .ordinary h ih
    | some entity => exact .entity h ih

/-- A reserved character other than the ampersand comes from a literal text. -/
theorem mem_literal (h : Composed Literal text) {c : Char} (hc : c ∈ text)
    (hreserved : entity? c ≠ none) (hne : c ≠ '&') : ∃ cs, Literal cs ∧ c ∈ cs := by
  induction h with
  | nil => cases hc
  | literal h _ ih =>
    rcases List.mem_append.1 hc with hc | hc
    · exact ⟨_, h, hc⟩
    · exact ih hc
  | entity h _ ih =>
    obtain ⟨rest, rfl, hrest⟩ := exists_of_entity? h
    rcases List.mem_append.1 hc with hc | hc
    · rcases List.mem_cons.1 hc with hc | hc
      · exact absurd hc hne
      · exact absurd (hrest c hc) hreserved
    · exact ih hc
  | ordinary h _ ih =>
    rcases List.mem_cons.1 hc with rfl | hc
    · exact absurd h hreserved
    · exact ih hc

/-- If no literal text has an ampersand, every ampersand begins an entity. -/
theorem exists_entity (h : Composed Literal text) (hliteral : ∀ cs, Literal cs → '&' ∉ cs)
    {before after : List Char} (hsplit : text = before ++ '&' :: after) :
    ∃ c entity, entity? c = some entity ∧ entity <+: '&' :: after := by
  induction h generalizing before with
  | nil => simp at hsplit
  | literal h _ ih =>
    obtain ⟨before', hrest⟩ := exists_split_of_not_mem (hliteral _ h) hsplit
    exact ih hrest
  | @entity c _ rest h _ ih =>
    obtain ⟨others, rfl, hothers⟩ := exists_of_entity? h
    cases before with
    | nil =>
      have hafter : others ++ rest = after := (List.cons.inj hsplit).2
      refine ⟨c, _, h, ?_⟩
      rw [← hafter]
      exact List.prefix_append _ _
    | cons d before =>
      have hno : '&' ∉ others := fun hmem => by simpa [entity?] using hothers _ hmem
      obtain ⟨before', hrest⟩ := exists_split_of_not_mem hno (List.cons.inj hsplit).2
      exact ih hrest
  | ordinary h _ ih =>
    cases before with
    | nil =>
      cases hsplit
      cases h
    | cons d before => exact ih (List.cons.inj hsplit).2

end Composed

end Html

/-! ## Scalars -/

namespace Number

open Html

/-- A digit is not reserved. -/
theorem entity?_of_isDigit {c : Char} (h : c.isDigit = true) : entity? c = none := by
  unfold entity?
  split <;> simp_all [Char.isDigit]

theorem ordinary_toDigits (n : Nat) : Ordinary (Nat.toDigits 10 n) :=
  fun _ hc => entity?_of_isDigit (Nat.isDigit_of_mem_toDigits (by omega) (by omega) hc)

/-- The digits of a decimal on a grid are not reserved. -/
theorem ordinary_digits_ofGrid (count : Nat) (grid : Int) :
    Ordinary (Decimal.ofGrid count grid).digits := by
  intro c hc
  apply ordinary_toDigits count
  have hreverse := (List.dropWhile_suffix _).subset (List.mem_reverse.1 hc)
  exact List.mem_reverse.1 hreverse

theorem ordinary_digits_shortest (x : Dyadic) (tie : Tie) : Ordinary (x.shortest tie).digits := by
  unfold Dyadic.shortest
  dsimp only
  cases h : (List.range 17).findSome? fun n =>
      (x.nearest? tie (x.point - ((n + 1 : Nat) : Int))).map fun count =>
        Decimal.ofGrid count (x.point - ((n + 1 : Nat) : Int)) with
  | none => exact ordinary_digits_ofGrid 0 0
  | some found =>
    obtain ⟨n, -, hn⟩ := List.exists_of_findSome?_eq_some h
    obtain ⟨count, -, rfl⟩ := Option.map_eq_some_iff.1 hn
    exact ordinary_digits_ofGrid count _

theorem ordinary_zeros (n : Nat) : Ordinary (Layout.zeros n).flatten := by
  intro c hc
  have hzero : c = '0' := by
    rw [Layout.zeros, List.flatten_append, List.mem_append] at hc
    rcases hc with hc | hc
    · simp at hc
      exact hc.2
    · split at hc
      · simp at hc
      · simp at hc
        exact hc.2
  subst hzero
  rfl

/-- A decimal without an exponent has digits and a point. -/
theorem ordinary_positionalPieces (layout : Layout) {d : Decimal} (hd : Ordinary d.digits) :
    Ordinary (layout.positionalPieces d).flatten := by
  have htake : ∀ n, Ordinary (d.digits.take n) := fun n c hc => hd c (List.mem_of_mem_take hc)
  have hdrop : ∀ n, Ordinary (d.digits.drop n) := fun n c hc => hd c (List.mem_of_mem_drop hc)
  unfold Layout.positionalPieces
  split
  · simp [entity?, ordinary_zeros, hd]
  · split
    · simp [entity?, htake, hdrop]
    · split <;> simp [entity?, ordinary_zeros, hd]

theorem ordinary_signPieces (negative : Bool) : Ordinary (signPieces negative).flatten := by
  cases negative <;> simp [signPieces, entity?]

/-- A number in a rendered text has no reserved character. -/
theorem ordinary_pieces (x : Binary64) : Ordinary (x.pieces .plain).flatten := by
  have hmagnitude : ∀ magnitude, Ordinary (Layout.plain.magnitudePieces magnitude).flatten := by
    intro magnitude
    cases magnitude with
    | none => exact ordinary_positionalPieces _ (by simp [entity?])
    | some x => exact ordinary_positionalPieces _ (ordinary_digits_shortest x _)
  unfold Binary64.pieces
  split
  · simp [entity?]
  · split
    · rw [List.flatten_append, ordinary_append]
      exact ⟨ordinary_signPieces _, hmagnitude _⟩
    · rw [List.flatten_append, ordinary_append]
      exact ⟨ordinary_signPieces _, by simp [entity?]⟩

end Number

/-- A value that is no text has no reserved character. -/
theorem Value.ordinary_pieces (v : Value) (h : ∀ s, v ≠ .text s) :
    Html.Ordinary v.pieces.flatten := by
  cases v with
  | text s => exact absurd rfl (h s)
  | bool b => cases b <;> simp [pieces, Html.entity?]
  | integer n =>
    rw [pieces, integerPieces, List.flatten_append, Html.ordinary_append]
    exact ⟨Number.ordinary_signPieces _, by simpa using Number.ordinary_toDigits _⟩
  | float x => exact Number.ordinary_pieces x
  | null | list _ | map _ | lambda _ => simp [pieces]

/-! ## Nodes that are visited -/

/-- Evaluating nodes in a context visits a node in a context of its own.  Sections and partials are
gone into, texts of lambdas are not. -/
inductive Visits {σ : Type} (w : World σ) : List Node → Context → Node → Context → Prop
  | here {ns : List Node} {ctx : Context} {n : Node} (h : n ∈ ns) : Visits w ns ctx n ctx
  | item {ns body : List Node} {ctx ctx' : Context} {n : Node} {name opening closing : Fragment}
      {items : List Value} {item : Value} (hblock : .block .upright name opening closing body ∈ ns)
      (hvalue : truthy? (ctx.valueOf name.text) = some (.list items)) (hitem : item ∈ items)
      (h : Visits w body (ctx.push item) n ctx') : Visits w ns ctx n ctx'
  | value {ns body : List Node} {ctx ctx' : Context} {n : Node} {name opening closing : Fragment}
      {v : Value} (hblock : .block .upright name opening closing body ∈ ns)
      (hvalue : truthy? (ctx.valueOf name.text) = some v) (hlist : ∀ items, v ≠ .list items)
      (hlambda : ∀ l, v ≠ .lambda l) (h : Visits w body (ctx.push v) n ctx') :
      Visits w ns ctx n ctx'
  | inverted {ns body : List Node} {ctx ctx' : Context} {n : Node}
      {name opening closing : Fragment} (hblock : .block .inverted name opening closing body ∈ ns)
      (hvalue : truthy? (ctx.valueOf name.text) = none) (h : Visits w body ctx n ctx') :
      Visits w ns ctx n ctx'
  | inclusion {ns : List Node} {ctx ctx' : Context} {n : Node} {name whole : Fragment}
      {indent : List Char} {source : String} {tree : Tree}
      (hinclusion : .inclusion name indent whole ∈ ns)
      (hsource : Dictionary.get? w.partials name.toString = some source)
      (htree : Tree.ofSource w.delimiters (Template.indentLines indent source.toList) = .ok tree)
      (h : Visits w tree.nodes ctx n ctx') : Visits w ns ctx n ctx'

/-- No section that is visited is handed to a lambda. -/
def SectionsPlain {σ : Type} (w : World σ) (ns : List Node) (ctx : Context) : Prop :=
  ∀ ctx' name opening closing body, Visits w ns ctx (.block .upright name opening closing body) ctx' →
    ∀ l, ctx'.valueOf name.text ≠ some (.lambda l)

/-- The node is no section that is handed to a lambda, and none is visited inside it. -/
def Node.PlainIn {σ : Type} (w : World σ) (ctx : Context) : Node → Prop
  | .text _ | .interpolation .. => True
  | .block .upright name _ _ body =>
    match truthy? (ctx.valueOf name.text) with
    | none => True
    | some (.lambda _) => False
    | some (.list items) => ∀ item ∈ items, SectionsPlain w body (ctx.push item)
    | some v => SectionsPlain w body (ctx.push v)
  | .block .inverted name _ _ body =>
    truthy? (ctx.valueOf name.text) = none → SectionsPlain w body ctx
  | .inclusion name indent _ =>
    ∀ source, Dictionary.get? w.partials name.toString = some source → ∀ tree,
      Tree.ofSource w.delimiters (Template.indentLines indent source.toList) = .ok tree →
        SectionsPlain w tree.nodes ctx

namespace SectionsPlain

variable {σ : Type} {w : World σ} {n : Node} {ns : List Node} {ctx : Context}

/-- Where no section is handed to a lambda, none is inside any of the nodes. -/
theorem plainIn (h : SectionsPlain w ns ctx) (hn : n ∈ ns) : n.PlainIn w ctx := by
  cases n with
  | text whole => trivial
  | interpolation escaping name whole => trivial
  | block polarity name opening closing body =>
    cases polarity with
    | upright =>
      simp only [Node.PlainIn]
      split
      · trivial
      · rename_i l hvalue
        exact h _ _ _ _ _ (.here hn) l (eq_some_of_truthy? hvalue)
      · rename_i items hvalue
        exact fun item hitem _ _ _ _ _ hvisit => h _ _ _ _ _ (.item hn hvalue hitem hvisit)
      · rename_i v hlambda hlist hvalue
        exact fun _ _ _ _ _ hvisit => h _ _ _ _ _ (.value hn hvalue hlist hlambda hvisit)
    | inverted =>
      intro hvalue _ _ _ _ _ hvisit
      exact h _ _ _ _ _ (.inverted hn hvalue hvisit)
  | inclusion name indent whole =>
    intro source hsource tree htree _ _ _ _ _ hvisit
    exact h _ _ _ _ _ (.inclusion hn hsource htree hvisit)

/-- No section is handed to a lambda if none is inside any of the nodes. -/
theorem of_plainIn (h : ∀ n ∈ ns, n.PlainIn w ctx) : SectionsPlain w ns ctx := by
  intro ctx' name opening closing body hvisit l hlambda
  cases hvisit with
  | here hn =>
    have hplain := h _ hn
    have hvalue : truthy? (ctx.valueOf name.text) = some (.lambda l) := by
      rw [hlambda]
      rfl
    simp [Node.PlainIn, hvalue] at hplain
  | item hblock hvalue hitem hvisit =>
    have hplain := h _ hblock
    simp only [Node.PlainIn, hvalue] at hplain
    exact hplain _ hitem _ _ _ _ _ hvisit l hlambda
  | value hblock hvalue hlist hno hvisit =>
    have hplain := h _ hblock
    simp only [Node.PlainIn, hvalue] at hplain
    exact hplain _ _ _ _ _ hvisit l hlambda
  | inverted hblock hvalue hvisit => exact h _ hblock hvalue _ _ _ _ _ hvisit l hlambda
  | inclusion hinclusion hsource htree hvisit =>
    exact h _ hinclusion _ hsource _ htree _ _ _ _ _ hvisit l hlambda

theorem tail (h : SectionsPlain w (n :: ns) ctx) : SectionsPlain w ns ctx :=
  of_plainIn fun _ hm => h.plainIn (List.mem_cons_of_mem _ hm)

end SectionsPlain

/-! ## Safe nodes -/

/-- The node writes a composed text by itself, or escapes what it writes.  Its indent consists of
blanks. -/
def Node.Safe (Literal : List Char → Prop) : Node → Prop
  | .text whole => Html.Composed Literal whole.text
  | .interpolation escaping _ _ => escaping = .escaped
  | .inclusion _ indent _ => Text.IsIndent indent
  | .block .. => True

namespace Evaluation

variable {σ : Type} {Literal : List Char → Prop}

/-- The evaluation gives a composed text, if it gives any. -/
def Composes (Literal : List Char → Prop) (x : Evaluation σ (List Char)) : Prop :=
  ∀ i out j, x i = .ok out j → Html.Composed Literal out

namespace Composes

theorem pure {text : List Char} (h : Html.Composed Literal text) :
    Composes (σ := σ) Literal (Pure.pure text) := by
  intro i out j hout
  cases hout
  exact h

theorem throw (failure : Failure) :
    Composes (σ := σ) Literal (MonadExcept.throw failure) :=
  nofun

/-- What is composed whatever came before is composed. -/
theorem bind {α : Type} {x : Evaluation σ α} {f : α → Evaluation σ (List Char)}
    (hf : ∀ a, Composes Literal (f a)) : Composes Literal (x >>= f) := by
  intro i out j hout
  change EStateM.bind x f i = _ at hout
  unfold EStateM.bind at hout
  split at hout
  · exact hf _ _ _ _ hout
  · cases hout

/-- Composed texts in a row are composed. -/
theorem append {x y : Evaluation σ (List Char)} (hx : Composes Literal x)
    (hy : Composes Literal y) :
    Composes Literal (do let first ← x; let rest ← y; Pure.pure (first ++ rest)) := by
  intro i out j hout
  change EStateM.bind x (fun first => y >>= fun rest => Pure.pure (first ++ rest)) i = _ at hout
  unfold EStateM.bind at hout
  split at hout
  · rename_i first k hfirst
    change EStateM.bind y (fun rest => Pure.pure (first ++ rest)) k = _ at hout
    unfold EStateM.bind at hout
    split at hout
    · rename_i rest l hrest
      cases hout
      exact (hx _ _ _ hfirst).append (hy _ _ _ hrest)
    · cases hout
  · cases hout

/-- The texts of items in order are composed if the text of each item is. -/
theorem inOrder {α : Type} {f : α → Evaluation σ (List Char)} {items : List α}
    (h : ∀ item ∈ items, Composes Literal (f item)) :
    Composes Literal (Evaluation.inOrder f items) := by
  induction items with
  | nil => exact .pure .nil
  | cons item items ih =>
    exact .append (h item List.mem_cons_self)
      (ih fun other hother => h other (List.mem_cons_of_mem _ hother))

/-- What is escaped as a whole is composed, whatever it is. -/
theorem escaped (x : Evaluation σ (List Char)) :
    Composes Literal (x >>= fun output => Pure.pure (quote .escaped output)) :=
  .bind fun output => .pure (.escape Literal output)

end Composes

variable {w : World σ} {inner : Option (Inner σ)} {tree : Tree}

/-- The escaped text of a value is composed. -/
theorem composed_textOf {v : Value} {text : List Char} (h : textOf .escaped v = .ok text) :
    Html.Composed Literal text := by
  unfold textOf at h
  split at h
  · cases h
    exact .escape Literal _
  · cases h
  · cases h
  · rename_i htext _ _
    cases h
    exact .of_ordinary (Value.ordinary_pieces _ htext)

/-- Inclusions give composed texts if no section inside is handed to a lambda. -/
def InclusionsCompose (Literal : List Char → Prop) (w : World σ) (inner : Option (Inner σ)) :
    Prop :=
  ∀ (ctx : Context) (name : Fragment) (indent : List Char) (whole : Fragment),
    Text.IsIndent indent → (Node.inclusion name indent whole).PlainIn w ctx →
      Composes Literal (inclusion w inner ctx name.toString indent)

mutual

/-- A safe node gives a composed text. -/
theorem composes_node (hinclusion : InclusionsCompose Literal w inner) (ctx : Context) :
    ∀ n : Node, Node.Everywhere (Node.Safe Literal) [n] → n.PlainIn w ctx →
      Composes Literal (node w inner tree ctx n)
  | .text whole, hsafe, _ => by
    rw [node]
    exact .pure hsafe.self
  | .interpolation escaping name whole, hsafe, _ => by
    obtain rfl : escaping = .escaped := hsafe.self
    rw [node]
    split
    · exact .pure .nil
    · exact .bind fun text => .escaped _
    · split
      · exact .pure (composed_textOf ‹_›)
      · exact .throw _
  | .block .upright name opening closing body, hsafe, hplain => by
    rw [node]
    simp only [Node.PlainIn] at hplain
    split
    · exact .pure .nil
    · rename_i l hvalue
      rw [hvalue] at hplain
      exact hplain.elim
    · rename_i items hvalue
      rw [hvalue] at hplain
      refine Composes.inOrder fun item hitem => ?_
      exact composes_nodes hinclusion (ctx.push item) body hsafe.body (hplain item hitem)
    · rename_i v hlambda hlist hvalue
      rw [hvalue] at hplain
      exact composes_nodes hinclusion (ctx.push v) body hsafe.body (by simpa using hplain)
  | .block .inverted name opening closing body, hsafe, hplain => by
    rw [node]
    split
    · exact composes_nodes hinclusion ctx body hsafe.body (hplain ‹_›)
    · exact .pure .nil
  | .inclusion name indent whole, hsafe, hplain => by
    rw [node]
    exact hinclusion ctx name indent whole hsafe.self hplain

/-- Safe nodes give a composed text. -/
theorem composes_nodes (hinclusion : InclusionsCompose Literal w inner) (ctx : Context) :
    ∀ ns : List Node, Node.Everywhere (Node.Safe Literal) ns → SectionsPlain w ns ctx →
      Composes Literal (nodes w inner tree ctx ns)
  | [], _, _ => by
    rw [nodes]
    exact .pure .nil
  | n :: ns, hsafe, hplain => by
    rw [nodes]
    have hfirst := composes_node hinclusion ctx n hsafe.head (hplain.plainIn List.mem_cons_self)
    exact hfirst.append (composes_nodes hinclusion ctx ns hsafe.tail hplain.tail)

end

/-- The partials of the world have safe trees, behind every indent. -/
def PartialsSafe (Literal : List Char → Prop) (w : World σ) : Prop :=
  ∀ name source, Dictionary.get? w.partials name = some source → ∀ indent,
    Text.IsIndent indent → ∀ tree,
      Tree.ofSource w.delimiters (Template.indentLines indent source.toList) = .ok tree →
        Node.Everywhere (Node.Safe Literal) tree.nodes

/-- Trees inside a tree give composed texts if they are safe and no section that is visited is
handed to a lambda. -/
def InnerComposes (Literal : List Char → Prop) (w : World σ) (inner : Option (Inner σ)) : Prop :=
  ∀ evaluate ∈ inner, ∀ (tree : Tree) (ctx : Context),
    Node.Everywhere (Node.Safe Literal) tree.nodes → SectionsPlain w tree.nodes ctx →
      Composes Literal (evaluate tree ctx)

/-- Inclusions give composed texts if trees inside do. -/
theorem inclusionsCompose_of_inner (hpartials : PartialsSafe Literal w)
    (hinner : InnerComposes Literal w inner) : InclusionsCompose Literal w inner := by
  intro ctx name indent whole hindent hplain
  unfold inclusion
  split
  · exact .pure .nil
  · rename_i source hsource
    split
    · exact .throw _
    · rename_i tree htree
      cases inner with
      | none => exact .throw _
      | some evaluate =>
        have hsafe := hpartials _ _ hsource indent hindent tree htree
        exact hinner evaluate rfl tree ctx hsafe (hplain source hsource tree htree)

/-- To every depth, trees inside a tree give composed texts. -/
theorem innerComposes_innerAt (hpartials : PartialsSafe Literal w) (depth : Nat) :
    InnerComposes Literal w (innerAt w depth) := by
  induction depth with
  | zero => exact nofun
  | succ depth ih =>
    rintro _ ⟨⟩ tree ctx hsafe hplain
    rw [ofTree_eq_nodes]
    exact composes_nodes (inclusionsCompose_of_inner hpartials ih) ctx tree.nodes hsafe hplain

/-- Safe trees evaluate to composed texts, to every depth. -/
theorem composes_ofTree (hpartials : PartialsSafe Literal w) (depth : Nat) (tree : Tree)
    (ctx : Context) (hsafe : Node.Everywhere (Node.Safe Literal) tree.nodes)
    (hplain : SectionsPlain w tree.nodes ctx) : Composes Literal (ofTree w depth tree ctx) := by
  rw [ofTree_eq_nodes]
  have hinclusion := inclusionsCompose_of_inner hpartials (innerComposes_innerAt hpartials depth)
  exact composes_nodes hinclusion ctx tree.nodes hsafe hplain

end Evaluation

/-! ## Sources without unescaped tags -/

namespace Token

/-- The text is the text of a token of a source. -/
def LiteralIn (pair : Delimiters) (source cs : List Char) : Prop :=
  ∃ stream, ofSource pair source = .ok stream ∧
    ∃ t ∈ stream.tokens, t.kind = .text ∧ t.whole.text = cs

/-- No token of the source is an unescaped tag. -/
def AllEscaped (pair : Delimiters) (source : List Char) : Prop :=
  ∀ stream, ofSource pair source = .ok stream →
    ∀ t ∈ stream.tokens, ∀ name, t.kind ≠ .interpolation .unescaped name

instance (pair : Delimiters) (source : List Char) : Decidable (AllEscaped pair source) :=
  match h : ofSource pair source with
  | .ok stream =>
    decidable_of_iff (∀ t ∈ stream.tokens, ∀ name ∈ t.kind.names,
        t.kind ≠ .interpolation .unescaped name) (by
      simp only [AllEscaped, h, Except.ok.injEq, forall_eq']
      refine forall₂_congr fun t _ => ⟨fun hnames name hkind => ?_, fun hall name _ => hall name⟩
      exact hnames name (by simp [hkind, TokenKind.names]) hkind)
  | .error _ => .isTrue (by simp [AllEscaped, h])

/-- Literal text is made of characters of the source. -/
theorem LiteralIn.subset {pair : Delimiters} {source cs : List Char}
    (h : LiteralIn pair source cs) : cs ⊆ source := by
  obtain ⟨stream, hsource, t, ht, -, rfl⟩ := h
  rw [← flatMap_text_of_ofSource hsource]
  exact fun c hc => List.mem_flatMap.2 ⟨t, ht, hc⟩

/-- Settling adds no token but inclusions with an indent. -/
theorem mem_of_mem_settle {tokens : List Token} {t : Token} (h : t ∈ settle tokens)
    (hkind : ∀ name indent, t.kind ≠ .inclusion name indent) : t ∈ tokens := by
  have hdrop : ∀ indent line, t ∈ dropText indent line → t ∈ line := by
    intro indent line hmem
    induction line generalizing indent with
    | nil => cases hmem
    | cons u us ih =>
      rw [dropText] at hmem
      split at hmem
      · exact List.mem_cons_of_mem _ (ih _ hmem)
      · rcases List.mem_cons.1 hmem with rfl | hmem
        · exact absurd rfl (hkind _ _)
        · exact List.mem_cons_of_mem _ (ih _ hmem)
      · rcases List.mem_cons.1 hmem with rfl | hmem
        · exact List.mem_cons_self
        · exact List.mem_cons_of_mem _ (ih _ hmem)
  obtain ⟨line, hline, hmem⟩ := List.mem_flatMap.1 h
  apply mem_of_mem_lines hline
  rw [settleLine] at hmem
  split at hmem
  · exact hdrop _ _ hmem
  · exact hmem

/-- The token is no unescaped tag, and its text is composed if it is text. -/
structure Safe (Literal : List Char → Prop) (t : Token) : Prop where
  text : t.kind = .text → Html.Composed Literal t.whole.text
  escaped : ∀ name, t.kind ≠ .interpolation .unescaped name

section

variable {Literal : List Char → Prop} {w : List Char}

/-- Only the contents of a token count. -/
theorem Safe.of_outline {t u : Token} (hu : t.outline .contents = some u)
    (hsafe : u.Safe Literal) : t.Safe Literal := by
  obtain ⟨u', hu', hkind, -, htext⟩ := exists_outline Outline.keepsText_contents t
  obtain rfl : u = u' := Option.some.inj (hu.symm.trans hu')
  constructor
  · intro ht
    rw [← htext ht]
    exact hsafe.text (by rw [hkind, ht]; rfl)
  · intro name ht
    exact hsafe.escaped ⟨0, name.text⟩ (by rw [hkind, ht]; rfl)

/-- A composed text is a safe token. -/
theorem Safe.ofText {whole : Fragment} {beginsLine : Bool}
    (h : Html.Composed Literal whole.text) : Safe Literal ⟨.text, whole, beginsLine⟩ := by
  constructor
  · intro _
    exact h
  · intro name hkind
    cases hkind

/-- A token with the kind of a safe tag is safe, however the tag's name changes. -/
theorem Safe.rename {t : Token} (ht : t.Safe Literal) (hkind : t.kind ≠ .text)
    (f : List Char → List Char) (whole : Fragment) (beginsLine : Bool) :
    Safe Literal ⟨t.kind.rename f, whole, beginsLine⟩ := by
  have hescaped := ht.escaped
  generalize t.kind = kind at hkind hescaped
  constructor
  · intro htext
    cases kind with
    | text => exact absurd rfl hkind
    | _ => cases htext
  · intro name hname
    cases kind with
    | interpolation escaping name' =>
      obtain ⟨rfl, -⟩ := TokenKind.interpolation.inj hname
      exact hescaped name' rfl
    | _ => cases hname

/-- A safe token is safe behind an indent. -/
theorem Safe.of_mem_behindIndent (hw : Text.AllBlank w) {t u : Token} (ht : t.Safe Literal)
    (hu : u ∈ behindIndent w t) : u.Safe Literal := by
  have hindent : ∀ b, Html.Composed Literal (Text.lead w b) := fun b =>
    .of_ordinary (Html.ordinary_of_allBlank (Text.allBlank_lead hw b))
  by_cases hkind : t.kind = .text
  · rw [behindIndent_of_kind_eq_text hkind, List.mem_singleton] at hu
    subst hu
    exact .ofText ((hindent _).append (ht.text hkind))
  · rw [behindIndent_of_kind_ne_text hkind, List.mem_append, List.mem_singleton] at hu
    rcases hu with hu | rfl
    · split at hu
      · obtain rfl := List.mem_singleton.1 hu
        exact .ofText (hindent true)
      · cases hu
    · exact ht.rename hkind _ _ _

/-- The tokens of a source without unescaped tags are safe, behind every indent. -/
theorem safe_of_ofSource_indentLines (hw : Text.IsIndent w) {pair : Delimiters}
    {source : List Char} (hescaped : AllEscaped pair source)
    (hliteral : ∀ cs, LiteralIn pair source cs → Literal cs) {stream : Stream}
    (h : ofSource pair (Template.indentLines w source) = .ok stream) :
    ∀ t ∈ stream.tokens, t.Safe Literal := by
  have hplain : ∀ plain, ofSource pair source = .ok plain →
      ∀ t ∈ plain.tokens, t.Safe Literal := fun plain hsource t ht =>
    ⟨fun hkind => .of_literal (hliteral _ ⟨plain, hsource, t, ht, hkind, rfl⟩),
      hescaped plain hsource t ht⟩
  by_cases hne : w = []
  · rw [hne, Template.indentLines_nil] at h
    exact hplain stream h
  · obtain ⟨plain, hsource, htokens⟩ := exists_behindIndent_of_ofSource hne hw h
    intro t ht
    obtain ⟨v, hv, u, huv, hu⟩ := htokens t ht
    exact .of_outline hu (.of_mem_behindIndent hw.blank (hplain plain hsource v hv) huv)

end

end Token

/-- The tree of a source without unescaped tags is safe, behind every indent. -/
theorem Template.safe_of_tree {Literal : List Char → Prop} {w : List Char} (hw : Text.IsIndent w)
    {pair live : Delimiters} {source : List Char} (hescaped : Token.AllEscaped pair source)
    (hliteral : ∀ cs, Token.LiteralIn pair source cs → Literal cs) {nodes : List Node}
    (h : tree pair (indentLines w source) = .ok (nodes, live)) :
    Node.Everywhere (Node.Safe Literal) nodes := by
  obtain ⟨stream, hstream, -, hnodes⟩ := exists_of_tree_eq_ok h
  have htokens := Token.safe_of_ofSource_indentLines hw hescaped hliteral hstream
  have hindents := isIndent_of_tree h
  have hsafe : Node.Everywhere (fun n => n.IndentHas Text.IsIndent → n.Safe Literal) nodes := by
    refine (Node.ofTokens_eq_ok_iff.1 hnodes).everywhere ?_ fun _ _ _ _ _ _ => trivial
    intro t ht n hleaf hindent
    unfold Token.leaf? at hleaf
    split at hleaf
    · rename_i hkind
      cases hleaf
      have hmem := Token.mem_of_mem_settle ht (by simp [hkind])
      exact (htokens t hmem).text hkind
    · rename_i escaping name hkind
      cases hleaf
      have hmem := Token.mem_of_mem_settle ht (by simp [hkind])
      cases escaping with
      | escaped => rfl
      | unescaped => exact absurd hkind ((htokens t hmem).escaped name)
    · cases hleaf
      exact hindent
    · cases hleaf
  exact fun n hn => hsafe n hn (hindents n hn)

/-! ## Rendering -/

namespace World

variable {σ : Type} (w : World σ)

/-- The text is the source of a template or of one of the partials. -/
def IsSource (template source : String) : Prop :=
  source = template ∨ ∃ name, Dictionary.get? w.partials name = some source

/-- The text is literal text of a template or of one of the partials. -/
def LiteralOf (template : String) (cs : List Char) : Prop :=
  ∃ source, w.IsSource template source ∧ Token.LiteralIn w.delimiters source.toList cs

end World

/-- A source gives a composed text against a view. -/
theorem Evaluation.composes_ofTemplate {σ : Type} {w : World σ} {source : String} {view : Value}
    (hescaped : ∀ text, w.IsSource source text → Token.AllEscaped w.delimiters text.toList)
    (hplain : ∀ tree, Tree.ofSource w.delimiters source.toList = .ok tree →
      SectionsPlain w tree.nodes (Context.ofView view)) :
    Composes (w.LiteralOf source) (ofTemplate w source view) := by
  have hsafe : ∀ text, w.IsSource source text → ∀ indent, Text.IsIndent indent → ∀ tree,
      Tree.ofSource w.delimiters (Template.indentLines indent text.toList) = .ok tree →
        Node.Everywhere (Node.Safe (w.LiteralOf source)) tree.nodes := by
    intro text htext indent hindent tree htree
    unfold Tree.ofSource at htree
    split at htree
    · rename_i nodes live hnodes
      cases htree
      exact Template.safe_of_tree hindent (hescaped text htext)
        (fun cs hcs => ⟨text, htext, hcs⟩) hnodes
    · cases htree
  have hpartials : PartialsSafe (w.LiteralOf source) w := fun name text htext =>
    hsafe text (.inr ⟨name, htext⟩)
  unfold ofTemplate
  split
  · exact .throw _
  · rename_i tree htree
    apply composes_ofTree hpartials w.limit tree _ ?_ (hplain tree htree)
    have hnoIndent : Text.IsIndent [] := ⟨nofun, nofun⟩
    apply hsafe source (.inl rfl) [] hnoIndent tree
    rw [Template.indentLines_nil]
    exact htree

/-- After any requests, take a template and partials without unescaped tags, and a view of which no
lambda is the value of a section that is visited.  In the rendered text, a reserved character other
than the ampersand comes from literal text of the template or of a partial.  If there is no
ampersand in these literal texts, then every ampersand of the rendered text begins an entity. -/
theorem Session.reserved_of_render {σ : Type} (host : Host σ) (delimiters : Delimiters)
    (limit : Nat) (init : σ) (history : List Request) (source : String) (view : Value)
    (text : String) (a : Engine.Activity σ) :
    let s := ((Session.start delimiters limit init).answerAll host history).2
    let w : World σ := ⟨delimiters, s.engine.partials, s.engine.limit, host⟩
    (∀ text, w.IsSource source text → Token.AllEscaped delimiters text.toList) →
    (∀ tree, Tree.ofSource delimiters source.toList = .ok tree →
      SectionsPlain w tree.nodes (Context.ofView view)) →
    Engine.render host source view ⟨s.engine, s.host, [], []⟩ = .ok text a →
    (∀ c ∈ ['<', '>', '"', '\''], c ∈ text.toList → ∃ cs, w.LiteralOf source cs ∧ c ∈ cs) ∧
    ((∀ cs, w.LiteralOf source cs → '&' ∉ cs) →
      ∀ before after, text.toList = before ++ '&' :: after →
        ∃ entity ∈ ["&amp;", "&lt;", "&gt;", "&quot;", "&#39;"],
          entity.toList <+: '&' :: after) := by
  intro s w hescaped hplain hrender
  have hcomposed : Html.Composed (w.LiteralOf source) text.toList := by
    obtain ⟨a', hevaluation⟩ :=
      Session.render_of_evaluation host delimiters limit init history source view
    cases hout : Evaluation.ofTemplate w source view ⟨s.host, []⟩ with
    | ok out i =>
      rw [hout] at hevaluation
      have hsame := hrender.symm.trans hevaluation
      cases hsame
      rw [String.toList_ofList]
      exact Evaluation.composes_ofTemplate hescaped hplain _ _ _ hout
    | error failure i =>
      rw [hout] at hevaluation
      obtain ⟨e, -, herror⟩ := hevaluation
      cases hrender.symm.trans herror
  constructor
  · intro c hc hmem
    have hreserved : Html.entity? c ≠ none ∧ c ≠ '&' := by
      simp only [List.mem_cons, List.not_mem_nil, or_false] at hc
      rcases hc with rfl | rfl | rfl | rfl <;> decide
    exact hcomposed.mem_literal hmem hreserved.1 hreserved.2
  · intro hliteral before after hsplit
    obtain ⟨c, entity, hentity, hprefix⟩ := hcomposed.exists_entity hliteral hsplit
    refine ⟨String.ofList entity, ?_, by rwa [String.toList_ofList]⟩
    unfold Html.entity? at hentity
    split at hentity <;> cases hentity <;> decide

/-- A lambda and a text that both hold markup, the text inside a section and a partial. -/
theorem Session.reserved_of_render_lambda :
    let host : Host Unit := ⟨fun _ _ s => ("<b>\x7b\x7b\x7bx\x7d\x7d\x7d&", s)⟩
    let history : List Request := [.setPartials [("p", "\x7b\x7bx\x7d\x7d")]]
    let source := "<i>\x7b\x7bf\x7d\x7d</i>\x7b\x7b#s\x7d\x7d\x7b\x7b>p\x7d\x7d\x7b\x7b/s\x7d\x7d"
    let view : Value := .map [("f", .lambda ⟨0, .interpolation⟩), ("s", .bool true),
      ("x", .text "'")]
    let s := ((Session.start .standard 64 ()).answerAll host history).2
    let w : World Unit := ⟨.standard, s.engine.partials, s.engine.limit, host⟩
    (∀ text, w.IsSource source text → Token.AllEscaped .standard text.toList) ∧
    (∀ tree, Tree.ofSource .standard source.toList = .ok tree →
      SectionsPlain w tree.nodes (Context.ofView view)) ∧
    (∀ cs, w.LiteralOf source cs → '&' ∉ cs) ∧
    ∃ text a, Engine.render host source view ⟨s.engine, s.host, [], []⟩ = .ok text a ∧
      text = "<i>&lt;b&gt;&#39;&amp;</i>&#39;" ∧
      (∀ c ∈ ['<', '>', '"', '\''], c ∈ text.toList → ∃ cs, w.LiteralOf source cs ∧ c ∈ cs) ∧
      ∀ before after, text.toList = before ++ '&' :: after →
        ∃ entity ∈ ["&amp;", "&lt;", "&gt;", "&quot;", "&#39;"],
          entity.toList <+: '&' :: after := by
  intro host history source view s w
  have hsources : ∀ text, w.IsSource source text →
      text = source ∨ text = "\x7b\x7bx\x7d\x7d" := by
    rintro text (rfl | ⟨name, hname⟩)
    · exact .inl rfl
    · right
      change Dictionary.get? [("p", "\x7b\x7bx\x7d\x7d")] name = some text at hname
      rw [Dictionary.get?_cons] at hname
      split at hname
      · exact (Option.some.inj hname).symm
      · cases hname
  have hescaped : ∀ text, w.IsSource source text →
      Token.AllEscaped .standard text.toList := by
    intro text htext
    rcases hsources text htext with rfl | rfl <;> decide +kernel
  have hliteral : ∀ cs, w.LiteralOf source cs → '&' ∉ cs := by
    rintro cs ⟨text, htext, hcs⟩ hmem
    have hsource : '&' ∈ text.toList := hcs.subset hmem
    revert hsource
    rcases hsources text htext with rfl | rfl <;> decide
  have hplain : ∀ tree, Tree.ofSource .standard source.toList = .ok tree →
      SectionsPlain w tree.nodes (Context.ofView view) := by
    have htokens : Token.ofSource .standard source.toList =
        .ok ⟨[⟨.text, ⟨0, ['<', 'i', '>']⟩, true⟩,
          ⟨.interpolation .escaped ⟨5, ['f']⟩, ⟨3, ['{', '{', 'f', '}', '}']⟩, false⟩,
          ⟨.text, ⟨8, ['<', '/', 'i', '>']⟩, false⟩,
          ⟨.sectionOpen .upright ⟨15, ['s']⟩, ⟨12, ['{', '{', '#', 's', '}', '}']⟩, false⟩,
          ⟨.inclusion ⟨21, ['p']⟩ [], ⟨18, ['{', '{', '>', 'p', '}', '}']⟩, false⟩,
          ⟨.sectionClose ⟨27, ['s']⟩, ⟨24, ['{', '{', '/', 's', '}', '}']⟩, false⟩],
          .standard⟩ := by decide +kernel
    have hinner : Token.ofSource .standard "\x7b\x7bx\x7d\x7d".toList =
        .ok ⟨[⟨.interpolation .escaped ⟨2, ['x']⟩, ⟨0, ['{', '{', 'x', '}', '}']⟩, true⟩],
          .standard⟩ := by decide +kernel
    intro tree htree
    rw [Tree.ofSource, Template.tree, htokens] at htree
    cases htree
    apply SectionsPlain.of_plainIn
    rintro n (_ | ⟨_, _ | ⟨_, _ | ⟨_, _ | ⟨_, ⟨⟩⟩⟩⟩⟩)
    · trivial
    · trivial
    · trivial
    · apply SectionsPlain.of_plainIn
      rintro n (_ | ⟨_, ⟨⟩⟩)
      intro text htext tree htree
      cases htext
      rw [Template.indentLines_nil, Tree.ofSource, Template.tree, hinner] at htree
      cases htree
      apply SectionsPlain.of_plainIn
      rintro n (_ | ⟨_, ⟨⟩⟩)
      trivial
  have houtcome : Engine.textOrKind (Engine.render host source view ⟨s.engine, s.host, [], []⟩) =
      .ok "<i>&lt;b&gt;&#39;&amp;</i>&#39;" := by decide +kernel
  cases hrender : Engine.render host source view ⟨s.engine, s.host, [], []⟩ with
  | error e a =>
    rw [hrender] at houtcome
    cases houtcome
  | ok text a =>
    rw [hrender] at houtcome
    obtain ⟨hreserved, hampersand⟩ := Session.reserved_of_render host .standard 64 () history source
      view text a hescaped hplain hrender
    exact ⟨hescaped, hplain, hliteral, text, a, rfl, Except.ok.inj houtcome, hreserved,
      hampersand hliteral⟩

end Mustache
