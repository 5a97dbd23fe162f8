import Mustache.Proofs.Growth
import Mustache.Proofs.Outline
import Mustache.Proofs.Refinement

/-!
# Views without lambdas

Where the view holds no lambda, no question is put to the host.  An evaluation then
gives the same text or the same failure whatever the host was asked before, and it
does not look at the source of a tree nor at the places in it: only the contents of
the nodes count.

Main results:

- Theorem `Context.LambdaFree.of_valueOf`: names stand for values without lambdas.
- Theorem `Evaluation.agree_nodes`: evaluations of nodes with the same contents agree if
  those of inclusions do.
- Theorem `Evaluation.nodes_congr`: under one world, only the contents of nodes count.
-/

namespace Mustache

/-! ## Values and contexts -/

/-- The value holds no lambda. -/
inductive Value.LambdaFree : Value → Prop
  | null : LambdaFree .null
  | bool (b : Bool) : LambdaFree (.bool b)
  | integer (n : Int64) : LambdaFree (.integer n)
  | float (x : Number.Binary64) : LambdaFree (.float x)
  | text (s : String) : LambdaFree (.text s)
  | list {items : List Value} (h : ∀ v ∈ items, LambdaFree v) : LambdaFree (.list items)
  | map {entries : List (String × Value)} (h : ∀ e ∈ entries, LambdaFree e.2) :
    LambdaFree (.map entries)

@[simp]
theorem Value.lambdaFree_bool (b : Bool) : (Value.bool b).LambdaFree :=
  .bool b

@[simp]
theorem Value.lambdaFree_list_iff {items : List Value} :
    (Value.list items).LambdaFree ↔ ∀ v ∈ items, v.LambdaFree := by
  constructor
  · rintro (_ | _ | _ | _ | _ | h | _)
    exact h
  · exact .list

@[simp]
theorem Value.lambdaFree_map_iff {entries : List (String × Value)} :
    (Value.map entries).LambdaFree ↔ ∀ e ∈ entries, e.2.LambdaFree := by
  constructor
  · rintro (_ | _ | _ | _ | _ | _ | h)
    exact h
  · exact .map

/-- The value of a key is the value of an entry. -/
theorem Dictionary.exists_mem_of_get? {α : Type} {d : Dictionary α} {key : String} {value : α}
    (h : get? d key = some value) : ∃ entry ∈ d, entry.2 = value := by
  induction d with
  | nil => cases h
  | cons entry d ih =>
    rw [get?_cons] at h
    split at h
    · exact ⟨entry, List.mem_cons_self, Option.some.inj h⟩
    · obtain ⟨entry', hmem, hvalue⟩ := ih h
      exact ⟨entry', List.mem_cons_of_mem _ hmem, hvalue⟩

/-- The members of a value without lambdas have none either. -/
theorem Value.LambdaFree.of_lookup {v member : Value} (hv : v.LambdaFree) {segment : String}
    (h : v.lookup segment = some member) : member.LambdaFree := by
  cases hv with
  | list hitems =>
    rw [lookup_list] at h
    obtain ⟨i, -, hi⟩ := Option.bind_eq_some_iff.1 h
    exact hitems member (List.mem_of_getElem? hi)
  | map hentries =>
    rw [lookup_map] at h
    obtain ⟨entry, hmem, rfl⟩ := Dictionary.exists_mem_of_get? h
    exact hentries entry hmem
  | _ => cases h

/-- A step leads on from a value without lambdas to another one. -/
theorem Value.LambdaFree.of_descend {v member : Value} (hv : v.LambdaFree) {steps : List String}
    (h : descend v steps = some member) : member.LambdaFree := by
  induction steps generalizing v with
  | nil => exact Option.some.inj h ▸ hv
  | cons step steps ih =>
    rw [descend] at h
    cases hstep : v.lookup step with
    | none =>
      rw [hstep] at h
      cases h
    | some next =>
      rw [hstep] at h
      exact ih (hv.of_lookup hstep) h

theorem lambdaFree_of_searchMember {values : List Value} (hvalues : ∀ v ∈ values, v.LambdaFree)
    {name : String} {member : Value} (h : searchMember name values = some member) :
    member.LambdaFree := by
  induction values with
  | nil => cases h
  | cons v outer ih =>
    rw [searchMember] at h
    split at h
    · rename_i found hfound
      exact Option.some.inj h ▸ (hvalues v List.mem_cons_self).of_lookup hfound
    · exact ih (fun u hu => hvalues u (List.mem_cons_of_mem _ hu)) h

/-- A truthy value is the value itself. -/
theorem eq_some_of_truthy? {found : Option Value} {v : Value} (h : truthy? found = some v) :
    found = some v := by
  cases found with
  | none => cases h
  | some u =>
    rw [truthy?_some] at h
    split at h
    · cases h
    · exact h

namespace Context

/-- No value of the context holds a lambda. -/
def LambdaFree (ctx : Context) : Prop :=
  ∀ v ∈ ctx.values, v.LambdaFree

/-- A view without lambdas is a context without lambdas. -/
theorem lambdaFree_ofView {view : Value} (h : view.LambdaFree) : (ofView view).LambdaFree := by
  intro v hv
  rw [List.mem_singleton.1 hv]
  exact h

theorem LambdaFree.push {ctx : Context} (hctx : ctx.LambdaFree) {v : Value} (hv : v.LambdaFree) :
    (ctx.push v).LambdaFree := by
  intro u hu
  rcases List.mem_cons.1 hu with rfl | hu
  · exact hv
  · exact hctx u hu

/-- A name stands for a value without lambdas. -/
theorem LambdaFree.of_valueOf {ctx : Context} (hctx : ctx.LambdaFree) {name : List Char}
    {v : Value} (h : ctx.valueOf name = some v) : v.LambdaFree := by
  unfold valueOf at h
  split at h
  · exact hctx v (Option.some.inj h ▸ List.mem_cons_self)
  · split at h
    · cases h
    · split at h
      · rename_i found hfound
        exact (lambdaFree_of_searchMember hctx hfound).of_descend h
      · cases h

/-- A truthy value is the value that the name stands for. -/
theorem LambdaFree.of_truthy? {ctx : Context} (hctx : ctx.LambdaFree) {name : List Char}
    {v : Value} (h : truthy? (ctx.valueOf name) = some v) : v.LambdaFree := by
  exact hctx.of_valueOf (eq_some_of_truthy? h)

end Context

/-! ## Evaluations that agree -/

namespace Evaluation

variable {σ : Type} {R : Failure → Failure → Prop}

/-- Both evaluations ask nothing, and give the same text or failures that are related. -/
def Agree (R : Failure → Failure → Prop) (x y : Evaluation σ (List Char)) : Prop :=
  (∃ text, x = pure text ∧ y = pure text) ∨ ∃ f f', R f f' ∧ x = throw f ∧ y = throw f'

namespace Agree

theorem pure (text : List Char) : Agree (σ := σ) R (Pure.pure text) (Pure.pure text) :=
  .inl ⟨text, rfl, rfl⟩

theorem throw {f f' : Failure} (h : R f f') :
    Agree (σ := σ) R (MonadExcept.throw f) (MonadExcept.throw f') :=
  .inr ⟨f, f', h, rfl, rfl⟩

variable {x y u v : Evaluation σ (List Char)}

/-- Texts in a row agree if the texts do. -/
theorem append (hxy : Agree R x y) (huv : Agree R u v) :
    Agree R (do let a ← x; let b ← u; Pure.pure (a ++ b))
      (do let a ← y; let b ← v; Pure.pure (a ++ b)) := by
  rcases hxy with ⟨a, rfl, rfl⟩ | ⟨f, f', hR, rfl, rfl⟩
  · rcases huv with ⟨b, rfl, rfl⟩ | ⟨f, f', hR, rfl, rfl⟩
    · exact .pure (a ++ b)
    · exact .throw hR
  · exact .throw hR

/-- The texts of items in order agree if the text of each item does. -/
theorem inOrder {α : Type} {f g : α → Evaluation σ (List Char)} {items : List α}
    (h : ∀ item ∈ items, Agree R (f item) (g item)) :
    Agree R (Evaluation.inOrder f items) (Evaluation.inOrder g items) := by
  induction items with
  | nil => exact .pure []
  | cons item items ih =>
    have hrest := ih fun item' hmem => h item' (List.mem_cons_of_mem _ hmem)
    exact (h item List.mem_cons_self).append hrest

theorem left (hxy : Agree Eq x y) : Agree Eq x x := by
  rcases hxy with ⟨a, rfl, -⟩ | ⟨f, _, -, rfl, -⟩
  · exact .pure a
  · exact .throw rfl

/-- Evaluations that agree on equal failures are equal. -/
theorem eq (hxy : Agree Eq x y) : x = y := by
  rcases hxy with ⟨text, rfl, rfl⟩ | ⟨f, _, rfl, rfl, rfl⟩ <;> rfl

end Agree

/-! ## Contents of trees -/

section

variable {w : World σ} {inner : Option (Inner σ)} {tree : Tree} {ctx : Context} {v : Value}

/-- An interpolation of a value without lambdas writes its text, if it has one. -/
theorem node_interpolation (hv : v.LambdaFree) {name : Fragment}
    (hvalue : truthy? (ctx.valueOf name.text) = some v) (escaping : Escaping) (whole : Fragment) :
    node w inner tree ctx (.interpolation escaping name whole) =
      match textOf escaping v with
      | .ok text => pure text
      | .error found => throw (.flawed (.notRenderable found) name.text) := by
  rw [node, hvalue]
  cases hv <;> rfl

/-- A section for a value without lambdas is evaluated for each item, or once. -/
theorem node_upright (name opening closing : Fragment) (body : List Node) :
    v.LambdaFree → truthy? (ctx.valueOf name.text) = some v →
      node w inner tree ctx (.block .upright name opening closing body) =
        match v with
        | .list items => inOrder (fun item => nodes w inner tree (ctx.push item) body) items
        | v => nodes w inner tree (ctx.push v) body := by
  intro hv hvalue
  rw [node, hvalue]
  cases hv <;> rfl

end

section

variable {w w' : World σ} {inner inner' : Option (Inner σ)} {tree tree' : Tree}
variable {P : List Char → Prop}

/-- Inclusions of the same name and the same indent, which has a property, agree in every context
without lambdas. -/
def InclusionsAgree (P : List Char → Prop) (R : Failure → Failure → Prop) (w w' : World σ)
    (inner inner' : Option (Inner σ)) : Prop :=
  ∀ ctx : Context, ctx.LambdaFree → ∀ name indent, P indent →
    Agree R (inclusion w inner ctx name indent) (inclusion w' inner' ctx name indent)

mutual

/-- Evaluations of nodes with the same contents agree if those of inclusions do. -/
theorem agree_node (hR : ∀ f, R f f) (hinclusion : InclusionsAgree P R w w' inner inner')
    (ctx : Context) (hctx : ctx.LambdaFree) : ∀ n n' : Node, Node.Everywhere (Node.IndentHas P) [n] →
      n.outline .contents = some n' →
      Agree R (node w inner tree ctx n) (node w' inner' tree' ctx n')
  | .text whole, _, _, h => by
    cases h
    rw [node, node]
    exact .pure whole.text
  | .interpolation escaping name whole, _, _, h => by
    cases h
    cases hvalue : truthy? (ctx.valueOf name.text) with
    | none =>
      have hvalue' : truthy? (ctx.valueOf (Outline.contents.name name).text) = none := hvalue
      rw [node, node, hvalue, hvalue']
      exact .pure []
    | some v =>
      have hv := hctx.of_truthy? hvalue
      have hvalue' : truthy? (ctx.valueOf (Outline.contents.name name).text) = some v := hvalue
      rw [node_interpolation hv hvalue, node_interpolation hv hvalue']
      cases textOf escaping v with
      | ok text => exact .pure text
      | error found => exact .throw (hR _)
  | .block .upright name opening closing body, _, hindents, h => by
    cases h
    cases hvalue : truthy? (ctx.valueOf name.text) with
    | none =>
      have hvalue' : truthy? (ctx.valueOf (Outline.contents.name name).text) = none := hvalue
      rw [node, node, hvalue, hvalue']
      exact .pure []
    | some v =>
      have hv := hctx.of_truthy? hvalue
      have hvalue' : truthy? (ctx.valueOf (Outline.contents.name name).text) = some v := hvalue
      rw [node_upright _ _ _ _ hv hvalue, node_upright _ _ _ _ hv hvalue']
      have honce := agree_nodes hR hinclusion (ctx.push v) (hctx.push hv) body hindents.body
      cases hv with
      | list hitems =>
        refine Agree.inOrder fun item hitem => ?_
        exact agree_nodes hR hinclusion (ctx.push item) (hctx.push (hitems item hitem)) body
          hindents.body
      | _ => exact honce
  | .block .inverted name opening closing body, _, hindents, h => by
    cases h
    rw [node, node]
    show Agree R (match truthy? (ctx.valueOf name.text) with | none => _ | some _ => _)
      (match truthy? (ctx.valueOf name.text) with | none => _ | some _ => _)
    cases truthy? (ctx.valueOf name.text) with
    | none => exact agree_nodes hR hinclusion ctx hctx body hindents.body
    | some v => exact .pure []
  | .inclusion name indent whole, _, hindents, h => by
    cases h
    rw [node, node]
    exact hinclusion ctx hctx name.toString indent hindents.self

/-- Evaluations of bodies with the same contents agree if those of inclusions do. -/
theorem agree_nodes (hR : ∀ f, R f f) (hinclusion : InclusionsAgree P R w w' inner inner')
    (ctx : Context) (hctx : ctx.LambdaFree) : ∀ ns : List Node, Node.Everywhere (Node.IndentHas P) ns →
    Agree R (nodes w inner tree ctx ns) (nodes w' inner' tree' ctx (Node.outlineAll .contents ns))
  | [], _ => by
    rw [Node.outlineAll, nodes, nodes]
    exact .pure []
  | n :: ns, hindents => by
    obtain ⟨n', hn'⟩ : ∃ n', n.outline .contents = some n' := by
      cases n <;> exact ⟨_, rfl⟩
    have hfirst := agree_node hR hinclusion ctx hctx n n' hindents.head hn'
    have hrest := agree_nodes hR hinclusion ctx hctx ns hindents.tail
    rw [Node.outlineAll, hn', nodes]
    show Agree R _ (nodes w' inner' tree' ctx (n' :: Node.outlineAll .contents ns))
    rw [nodes]
    exact hfirst.append hrest

end

end

/-! ## Trees under one world -/

/-- The evaluation of a tree asks nothing, in every context without lambdas. -/
def AsksNothing (evaluate : Inner σ) : Prop :=
  ∀ tree, ∀ ctx : Context, ctx.LambdaFree → Agree Eq (evaluate tree ctx) (evaluate tree ctx)

/-- Under one world, inclusions agree if the evaluations of trees inside them ask nothing. -/
theorem inclusionsAgree_self {w : World σ} {inner : Option (Inner σ)}
    (hinner : ∀ evaluate ∈ inner, AsksNothing evaluate) :
    InclusionsAgree (fun _ => True) Eq w w inner inner := by
  intro ctx hctx name indent _
  unfold inclusion
  split
  · exact .pure []
  · split
    · exact .throw rfl
    · rename_i tree _
      cases inner with
      | none => exact .throw rfl
      | some evaluate => exact hinner evaluate rfl tree ctx hctx

section

variable {w : World σ} {inner : Option (Inner σ)} {ctx : Context}

/-- Where trees inside ask nothing, the evaluation of nodes asks nothing and sees their contents
only, whatever tree they stand in. -/
theorem agree_nodes_contents (hinner : ∀ evaluate ∈ inner, AsksNothing evaluate)
    (hctx : ctx.LambdaFree) (tree tree' : Tree) (ns : List Node) :
    Agree Eq (nodes w inner tree ctx ns)
      (nodes w inner tree' ctx (Node.outlineAll .contents ns)) :=
  have hindents : Node.Everywhere (Node.IndentHas fun _ => True) ns := by
    intro n _
    cases n <;> exact trivial
  agree_nodes (fun _ => rfl) (inclusionsAgree_self hinner) ctx hctx ns hindents

/-- Where trees inside ask nothing, the evaluation of nodes asks nothing. -/
theorem agree_nodes_self (hinner : ∀ evaluate ∈ inner, AsksNothing evaluate)
    (hctx : ctx.LambdaFree) (tree : Tree) (ns : List Node) :
    Agree Eq (nodes w inner tree ctx ns) (nodes w inner tree ctx ns) :=
  (agree_nodes_contents hinner hctx tree tree ns).left

/-- Where trees inside ask nothing, the evaluation of nodes depends on their contents alone, and not
on the tree in which they stand. -/
theorem nodes_congr (hinner : ∀ evaluate ∈ inner, AsksNothing evaluate) (hctx : ctx.LambdaFree)
    (tree tree' : Tree) {ns ns' : List Node}
    (h : Node.outlineAll .contents ns = Node.outlineAll .contents ns') :
    nodes w inner tree ctx ns = nodes w inner tree' ctx ns' := by
  have hcontents := agree_nodes_contents (w := w) hinner hctx tree tree ns
  have hcontents' := agree_nodes_contents (w := w) hinner hctx tree' tree ns'
  rw [h] at hcontents
  exact hcontents.eq.trans hcontents'.eq.symm

/-- The nodes of two bodies in a row contribute their texts in a row. -/
theorem nodes_append (tree : Tree) (ms ns : List Node) :
    nodes w inner tree ctx (ms ++ ns) = (do
      let first ← nodes w inner tree ctx ms
      let rest ← nodes w inner tree ctx ns
      pure (first ++ rest)) := by
  induction ms with
  | nil => simp [nodes]
  | cons m ms ih =>
    simp only [List.cons_append, nodes, ih, bind_assoc, pure_bind, List.append_assoc]

end

/-- To every depth, evaluations of trees inside a tree ask nothing. -/
theorem asksNothing_of_mem_innerAt (w : World σ) (depth : Nat) :
    ∀ evaluate ∈ innerAt w depth, AsksNothing evaluate := by
  induction depth with
  | zero => exact nofun
  | succ depth ih =>
    rintro _ ⟨⟩ tree ctx hctx
    rw [ofTree_eq_nodes]
    exact agree_nodes_self ih hctx tree tree.nodes

end Evaluation

end Mustache
