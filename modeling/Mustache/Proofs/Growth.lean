import Mustache.Node

/-!
# How trees grow from tokens

The tokens of a template grow into its nodes: a text, an interpolation and an inclusion
into a leaf each, and two tags of the same name into a section around the nodes that
the tokens between them grow into.  Nesting tokens with a stack of open sections finds
this tree exactly if there is one.

Main results:

- Theorem `Grows.append`: tokens in a row grow into nodes in a row.
- Theorem `Node.ofTokens_eq_ok_iff`: nesting succeeds with the nodes that the tokens
  grow into.
- Theorem `Grows.everywhere`: what holds of leaves and sections of the tokens holds
  at every depth.
- Theorem `Grows.exists_split`: every section stands between the tags that it is made of.
-/

namespace Mustache

/-! ## Growth -/

/-- The leaf that a token becomes, if it becomes one. -/
def Token.leaf? (t : Token) : Option Node :=
  match t.kind with
  | .text => some (.text t.whole)
  | .interpolation escaping name => some (.interpolation escaping name t.whole)
  | .inclusion name indent => some (.inclusion name indent t.whole)
  | _ => none

/-- The token leaves no trace in the tree. -/
def Token.IsSilent (t : Token) : Prop :=
  t.kind = .comment ∨ t.kind = .setDelimiters

/-- Tokens and the nodes that they grow into. -/
inductive Grows : List Token → List Node → Prop
  | nil : Grows [] []
  | silent {t : Token} {ts : List Token} {ns : List Node} (ht : t.IsSilent) (rest : Grows ts ns) :
      Grows (t :: ts) ns
  | leaf {t : Token} {ts : List Token} {n : Node} {ns : List Node} (ht : t.leaf? = some n)
      (rest : Grows ts ns) : Grows (t :: ts) (n :: ns)
  | block {o c : Token} {inner ts : List Token} {body ns : List Node} {polarity : Polarity}
      {name name' : Fragment} (hopen : o.kind = .sectionOpen polarity name)
      (hclose : c.kind = .sectionClose name') (hname : name.text = name'.text)
      (hbody : Grows inner body) (rest : Grows ts ns) :
      Grows (o :: (inner ++ c :: ts)) (.block polarity name o.whole c.whole body :: ns)

namespace Grows

variable {ts us : List Token} {ns ms : List Node}

/-- Tokens in a row grow into nodes in a row. -/
theorem append (h : Grows ts ns) (h' : Grows us ms) : Grows (ts ++ us) (ns ++ ms) := by
  induction h with
  | nil => exact h'
  | silent ht _ ih => exact .silent ht ih
  | leaf ht _ ih => exact .leaf ht ih
  | block hopen hclose hname hbody _ _ ih =>
    simp only [List.cons_append, List.append_assoc]
    exact .block hopen hclose hname hbody ih

end Grows

/-! ## Taking up tokens -/

namespace Nesting

/-- A token that becomes a leaf is added to the innermost body. -/
theorem step_of_leaf {t : Token} {leaf : Node} (h : t.leaf? = some leaf) (n : Nesting) :
    n.step t = .ok (n.push leaf) := by
  unfold Token.leaf? at h
  unfold step
  split at h <;> simp_all

/-- A silent token changes nothing. -/
theorem step_of_isSilent {t : Token} (h : t.IsSilent) (n : Nesting) : n.step t = .ok n := by
  rcases h with h | h <;> simp [step, h]

/-- Tokens that grow into nodes add these nodes to the innermost body, whatever sections are
open. -/
theorem run_of_grows {ts : List Token} {ns : List Node} (h : Grows ts ns) (n : Nesting) :
    n.run ts = .ok ⟨n.opened, ns.reverse ++ n.nodes⟩ := by
  induction h generalizing n with
  | nil => simp [run]
  | silent ht _ ih => simp [run, step_of_isSilent ht, Except.bind, ih]
  | leaf ht _ ih => simp [run, step_of_leaf ht, Except.bind, ih, push]
  | @block o c inner ts body ns polarity name name' hopen hclose hname _ _ ihbody ih =>
    let opened : Nesting := ⟨⟨polarity, name, o.whole, n.nodes⟩ :: n.opened, []⟩
    have hstep : n.step o = .ok opened := by
      simp [step, hopen, opened]
    rw [run, hstep]
    show opened.run (inner ++ c :: ts) = _
    rw [run_append, ihbody]
    show run ⟨opened.opened, body.reverse ++ []⟩ (c :: ts) = _
    have hclosed : step ⟨opened.opened, body.reverse ++ []⟩ c =
        .ok ⟨n.opened, .block polarity name o.whole c.whole body :: n.nodes⟩ := by
      simp [step, hclose, close, opened, hname]
    rw [run, hclosed]
    simpa [Except.bind] using ih ⟨n.opened, .block polarity name o.whole c.whole body :: n.nodes⟩

end Nesting

/-- A nesting that tokens lead to: the tokens behind the innermost open tag grow into the nodes of
the innermost body, and those before it lead to the nesting in which it was opened. -/
inductive LeadsTo : List Token → Nesting → Prop
  | outermost {ts : List Token} {ns : List Node} (h : Grows ts ns) : LeadsTo ts ⟨[], ns.reverse⟩
  | opened {ts us : List Token} {o : Token} {ns : List Node} {n : Nesting} {polarity : Polarity}
      {name : Fragment} (h : LeadsTo ts n) (hopen : o.kind = .sectionOpen polarity name)
      (hbody : Grows us ns) :
      LeadsTo (ts ++ o :: us) ⟨⟨polarity, name, o.whole, n.nodes⟩ :: n.opened, ns.reverse⟩

namespace LeadsTo

variable {ts us : List Token} {n : Nesting} {ns : List Node}

/-- Tokens that grow into nodes lead on to a nesting with these nodes. -/
theorem append_of_grows (h : LeadsTo ts n) (hus : Grows us ns) :
    LeadsTo (ts ++ us) ⟨n.opened, ns.reverse ++ n.nodes⟩ := by
  cases h with
  | outermost hts =>
    rw [← List.reverse_append]
    exact .outermost (hts.append hus)
  | opened h hopen hbody =>
    rw [← List.reverse_append, List.append_assoc]
    exact .opened h hopen (hbody.append hus)

/-- Closing the innermost section leads to the nesting around it, with one more node. -/
theorem close {name : Fragment} {next : Nesting} {c : Token} (h : LeadsTo ts n)
    (hclose : c.kind = .sectionClose name) (hnext : n.close name c.whole = .ok next) :
    LeadsTo (ts ++ [c]) next := by
  cases h with
  | outermost hts => cases hnext
  | @opened before body o ns m polarity openName hbefore hopen hbody =>
    by_cases hname : openName.text = name.text
    · simp only [Nesting.close, if_pos hname, Except.ok.injEq] at hnext
      subst hnext
      have hblock : Grows (o :: (body ++ [c])) [.block polarity openName o.whole c.whole ns] :=
        .block hopen hclose hname hbody .nil
      simpa using hbefore.append_of_grows hblock
    · simp [Nesting.close, if_neg hname] at hnext

/-- Taking up a token leads to the next nesting. -/
theorem step {t : Token} {next : Nesting} (h : LeadsTo ts n) (hnext : n.step t = .ok next) :
    LeadsTo (ts ++ [t]) next := by
  cases hleaf : t.leaf? with
  | some leaf =>
    rw [Nesting.step_of_leaf hleaf] at hnext
    cases hnext
    exact h.append_of_grows (.leaf hleaf .nil)
  | none =>
    cases hkind : t.kind with
    | text | interpolation _ _ | inclusion _ _ => simp [Token.leaf?, hkind] at hleaf
    | comment | setDelimiters =>
      have hsilent : t.IsSilent := by simp [Token.IsSilent, hkind]
      rw [Nesting.step_of_isSilent hsilent] at hnext
      cases hnext
      exact h.append_of_grows (.silent hsilent .nil)
    | sectionOpen polarity name =>
      simp only [Nesting.step, hkind, Except.ok.injEq] at hnext
      subst hnext
      exact .opened h hkind .nil
    | sectionClose name =>
      simp only [Nesting.step, hkind] at hnext
      exact h.close hkind hnext

/-- Taking up tokens one after the other leads to the last nesting. -/
theorem run {last : Nesting} (h : LeadsTo ts n) (hrun : n.run us = .ok last) :
    LeadsTo (ts ++ us) last := by
  induction us generalizing ts n with
  | nil =>
    cases hrun
    simpa using h
  | cons t us ih =>
    rw [Nesting.run] at hrun
    cases hstep : n.step t with
    | error flaw => simp [hstep, Except.bind] at hrun
    | ok next =>
      rw [hstep] at hrun
      simpa using ih (h.step hstep) hrun

end LeadsTo

/-- Nesting tokens succeeds with the nodes that the tokens grow into. -/
theorem Node.ofTokens_eq_ok_iff {ts : List Token} {ns : List Node} :
    ofTokens ts = .ok ns ↔ Grows ts ns := by
  constructor
  · intro h
    unfold ofTokens at h
    cases hrun : Nesting.empty.run ts with
    | error flaw => simp [hrun, Except.bind] at h
    | ok last =>
      rw [hrun] at h
      have hlast : LeadsTo ts last := LeadsTo.run (.outermost .nil) hrun
      cases hlast with
      | outermost hgrows =>
        simp only [Except.bind, Nesting.finish, List.reverse_reverse, Except.ok.injEq] at h
        exact h ▸ hgrows
      | opened _ _ _ => simp [Except.bind, Nesting.finish] at h
  · intro h
    rw [ofTokens, Nesting.run_of_grows h]
    simp [Except.bind, Nesting.finish, Nesting.empty]

/-! ## Nodes at every depth -/

/-- The nodes inside a node. -/
def Node.body : Node → List Node
  | .block _ _ _ _ body => body
  | _ => []

/-- The node is one of these nodes or stands inside one of them, at any depth. -/
inductive Node.Within (n : Node) : List Node → Prop
  | here {ns : List Node} (h : n ∈ ns) : Within n ns
  | inside {ns : List Node} {m : Node} (hm : m ∈ ns) (h : Within n m.body) : Within n ns

namespace Node.Within

variable {n m : Node} {ns : List Node}

theorem cons_right (h : n.Within ns) (m : Node) : n.Within (m :: ns) := by
  cases h with
  | here h => exact .here (List.mem_cons_of_mem _ h)
  | inside hm h => exact .inside (List.mem_cons_of_mem _ hm) h

theorem of_body (h : n.Within m.body) (ns : List Node) : n.Within (m :: ns) :=
  .inside List.mem_cons_self h

theorem not_nil : ¬ n.Within [] := by
  intro h
  cases h with
  | here h => cases h
  | inside hm => cases hm

/-- A node stands among some nodes if it is the first of them, or inside it, or among the others. -/
theorem cons_iff : n.Within (m :: ns) ↔ n = m ∨ n.Within m.body ∨ n.Within ns := by
  constructor
  · intro h
    cases h with
    | here h =>
      rcases List.mem_cons.1 h with h | h
      · exact .inl h
      · exact .inr (.inr (.here h))
    | inside hm h =>
      rcases List.mem_cons.1 hm with rfl | hm
      · exact .inr (.inl h)
      · exact .inr (.inr (.inside hm h))
  · rintro (rfl | h | h)
    · exact .here List.mem_cons_self
    · exact of_body h ns
    · exact cons_right h m

end Node.Within

/-- The property holds of all nodes, at every depth. -/
def Node.Everywhere (P : Node → Prop) (ns : List Node) : Prop :=
  ∀ n : Node, n.Within ns → P n

namespace Node.Everywhere

variable {P : Node → Prop} {n : Node} {ns : List Node}

theorem self (h : Everywhere P [n]) : P n :=
  h n (.here List.mem_cons_self)

theorem head (h : Everywhere P (n :: ns)) : Everywhere P [n] := by
  intro m hm
  apply h
  rcases Node.Within.cons_iff.1 hm with rfl | hm | hm
  · exact .here List.mem_cons_self
  · exact hm.of_body ns
  · exact absurd hm Node.Within.not_nil

theorem tail (h : Everywhere P (n :: ns)) : Everywhere P ns :=
  fun m hm => h m (hm.cons_right n)

theorem body (h : Everywhere P [n]) : Everywhere P n.body :=
  fun m hm => h m (hm.of_body [])

end Node.Everywhere

/-- The indent of an inclusion has this property. -/
def Node.IndentHas (P : List Char → Prop) : Node → Prop
  | .inclusion _ indent _ => P indent
  | _ => True

/-- A leaf has no nodes inside. -/
theorem Token.body_leaf {t : Token} {n : Node} (h : t.leaf? = some n) : n.body = [] := by
  unfold leaf? at h
  split at h <;> cases h <;> rfl

namespace Grows

variable {ts : List Token} {ns : List Node}

/-- Every node, at every depth, is a leaf that one of the tokens becomes, or a section that one of
them opens. -/
theorem exists_token_of_within {n : Node} (h : Grows ts ns) (hn : n.Within ns) :
    ∃ t ∈ ts, t.leaf? = some n ∨ ∃ polarity name closing body,
      t.kind = .sectionOpen polarity name ∧ n = .block polarity name t.whole closing body := by
  induction h with
  | nil => exact absurd hn Node.Within.not_nil
  | silent _ _ ih =>
    obtain ⟨t, ht, hnode⟩ := ih hn
    exact ⟨t, List.mem_cons_of_mem _ ht, hnode⟩
  | leaf ht _ ih =>
    rcases Node.Within.cons_iff.1 hn with rfl | hn | hn
    · exact ⟨_, List.mem_cons_self, .inl ht⟩
    · rw [Token.body_leaf ht] at hn
      exact absurd hn Node.Within.not_nil
    · obtain ⟨t, ht, hnode⟩ := ih hn
      exact ⟨t, List.mem_cons_of_mem _ ht, hnode⟩
  | block hopen _ _ _ _ ihbody ih =>
    rcases Node.Within.cons_iff.1 hn with rfl | hn | hn
    · exact ⟨_, List.mem_cons_self, .inr ⟨_, _, _, _, hopen, rfl⟩⟩
    · obtain ⟨t, ht, hnode⟩ := ihbody hn
      exact ⟨t, by simp [ht], hnode⟩
    · obtain ⟨t, ht, hnode⟩ := ih hn
      exact ⟨t, by simp [ht], hnode⟩

/-- What holds of the leaves that the tokens become and of all sections holds at every depth. -/
theorem everywhere {P : Node → Prop} (h : Grows ts ns)
    (hleaf : ∀ t ∈ ts, ∀ n, t.leaf? = some n → P n)
    (hblock : ∀ polarity name opening closing body, P (.block polarity name opening closing body)) :
    Node.Everywhere P ns := by
  intro n hn
  obtain ⟨t, ht, hnode | ⟨polarity, name, closing, body, -, rfl⟩⟩ := h.exists_token_of_within hn
  · exact hleaf t ht n hnode
  · exact hblock _ _ _ _ _

/-- Every section stands between the tags that it is made of, and its body is what the tokens
between them grow into. -/
theorem exists_split {polarity : Polarity} {name opening closing : Fragment} {body : List Node}
    (h : Grows ts ns) (hn : (Node.block polarity name opening closing body).Within ns) :
    ∃ before o inner c after name', ts = before ++ o :: (inner ++ c :: after) ∧
      o.kind = .sectionOpen polarity name ∧ o.whole = opening ∧ c.kind = .sectionClose name' ∧
      c.whole = closing ∧ name.text = name'.text ∧ Grows inner body := by
  induction h with
  | nil => exact absurd hn Node.Within.not_nil
  | @silent t ts ns _ _ ih =>
    obtain ⟨before, o, inner, c, after, name', rfl, hsplit⟩ := ih hn
    exact ⟨t :: before, o, inner, c, after, name', rfl, hsplit⟩
  | @leaf t ts n ns ht _ ih =>
    rcases Node.Within.cons_iff.1 hn with rfl | hn | hn
    · unfold Token.leaf? at ht
      split at ht <;> cases ht
    · rw [Token.body_leaf ht] at hn
      exact absurd hn Node.Within.not_nil
    · obtain ⟨before, o, inner, c, after, name', rfl, hsplit⟩ := ih hn
      exact ⟨t :: before, o, inner, c, after, name', rfl, hsplit⟩
  | @block o c inner ts body' ns polarity' name'' name' hopen hclose hname hbody _ ihbody ih =>
    rcases Node.Within.cons_iff.1 hn with heq | hn | hn
    · cases heq
      exact ⟨[], o, inner, c, ts, name', rfl, hopen, rfl, hclose, rfl, hname, hbody⟩
    · obtain ⟨before, o', inner', c', after, name', rfl, hsplit⟩ := ihbody hn
      exact ⟨o :: before, o', inner', c', after ++ c :: ts, name', by simp, hsplit⟩
    · obtain ⟨before, o', inner', c', after, name', rfl, hsplit⟩ := ih hn
      exact ⟨o :: (inner ++ c :: before), o', inner', c', after, name', by simp, hsplit⟩

end Grows

end Mustache
