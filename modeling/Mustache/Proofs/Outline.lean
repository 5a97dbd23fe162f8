import Mustache.Error
import Mustache.Node
import Mustache.Proofs.SourceLines

/-!
# Outlines of templates

Two templates may have the same structure though they differ in the places of their
tags, in their names or in their texts.  An outline says what is kept of the parts
of a template.  Nesting sections asks nothing of a token but its kind and whether two
names are the same, so the tree of outlined tokens is the outline of the tree.

Main results:

- Theorem `Node.withKind_ofTokens_outline`: nesting sections commutes with outlining.
- Theorem `Token.KeepsFlag.lines_flatMap`: so does cutting tokens into lines, if flags are kept.
- Theorem `Token.settle_outline`: so does settling lines, if texts are kept.
-/

namespace Mustache

/-! ## Kinds of flaws -/

/-- The kind of the error that reports the flaw. -/
def Flaw.kind (flaw : Flaw) : ErrorKind :=
  flaw.fault.kind

/-- A result, or only the kind of its flaw. -/
def withKind {α : Type} : Except Flaw α → Except ErrorKind α
  | .ok a => .ok a
  | .error flaw => .error flaw.kind

theorem withKind_bind {α β : Type} (x : Except Flaw α) (f : α → Except Flaw β) :
    withKind (x.bind f) = (withKind x).bind fun a => withKind (f a) := by
  cases x <;> rfl

/-- Two results are flawed together if they are the same but for what is made of them. -/
theorem exists_eq_ok_iff_of_withKind_map_eq {α β γ : Type} {x : Except Flaw α} {y : Except Flaw β}
    {f : α → γ} {g : β → γ} (h : (withKind x).map f = (withKind y).map g) :
    (∃ a, x = .ok a) ↔ ∃ b, y = .ok b := by
  cases x with
  | ok a =>
    cases y with
    | ok b => exact ⟨fun _ => ⟨b, rfl⟩, fun _ => ⟨a, rfl⟩⟩
    | error flaw => cases h
  | error flaw =>
    cases y with
    | ok b => cases h
    | error flaw => simp

/-! ## Outlines -/

/-- What is kept of the parts of a template.  A text may be left out altogether.  Names are the same
in the outline exactly if they are the same in the template. -/
structure Outline where
  text : Fragment → Option Fragment
  name : Fragment → Fragment
  /-- What is kept of a tag besides its name. -/
  tag : Fragment → Fragment
  indent : List Char → List Char
  beginsLine : Bool → Bool
  name_text_iff : ∀ f g, (name f).text = (name g).text ↔ f.text = g.text

variable (o : Outline)

/-- What is kept of a kind. -/
def TokenKind.outline : TokenKind → TokenKind
  | .text => .text
  | .interpolation escaping name => .interpolation escaping (o.name name)
  | .sectionOpen polarity name => .sectionOpen polarity (o.name name)
  | .sectionClose name => .sectionClose (o.name name)
  | .inclusion name indent => .inclusion (o.name name) (o.indent indent)
  | .comment => .comment
  | .setDelimiters => .setDelimiters

/-- What is kept of a token. -/
def Token.outline (t : Token) : Option Token :=
  match t.kind with
  | .text => (o.text t.whole).map fun whole => ⟨.text, whole, o.beginsLine t.beginsLine⟩
  | kind => some ⟨kind.outline o, o.tag t.whole, o.beginsLine t.beginsLine⟩

/-- Something is kept of every tag. -/
theorem Token.outline_of_kind_ne_text {t : Token} (h : t.kind ≠ .text) :
    t.outline o = some ⟨t.kind.outline o, o.tag t.whole, o.beginsLine t.beginsLine⟩ := by
  unfold outline
  cases hkind : t.kind with
  | text => exact absurd hkind h
  | _ => rfl

mutual

/-- What is kept of a node. -/
def Node.outline : Node → Option Node
  | .text whole => (o.text whole).map .text
  | .interpolation escaping name whole =>
    some (.interpolation escaping (o.name name) (o.tag whole))
  | .block polarity name opening closing body =>
    some (.block polarity (o.name name) (o.tag opening) (o.tag closing) (Node.outlineAll body))
  | .inclusion name indent whole =>
    some (.inclusion (o.name name) (o.indent indent) (o.tag whole))

/-- What is kept of the nodes of a body. -/
def Node.outlineAll : List Node → List Node
  | [] => []
  | n :: ns => (Node.outline n).toList ++ Node.outlineAll ns

end

theorem Node.outlineAll_append (ms ns : List Node) :
    outlineAll o (ms ++ ns) = outlineAll o ms ++ outlineAll o ns := by
  induction ms with
  | nil => rfl
  | cons m ms ih => simp [outlineAll, ih]

/-! ## Nesting -/

/-- What is kept of nodes of which the last one comes first. -/
def Node.outlineReversed (ns : List Node) : List Node :=
  (outlineAll o ns.reverse).reverse

theorem Node.outlineReversed_cons (n : Node) (ns : List Node) :
    outlineReversed o (n :: ns) = (n.outline o).toList ++ outlineReversed o ns := by
  cases h : n.outline o <;> simp [outlineReversed, outlineAll_append, outlineAll, h]

/-- What is kept of an open section. -/
def OpenSection.outline (s : OpenSection) : OpenSection where
  polarity := s.polarity
  name := o.name s.name
  opening := o.tag s.opening
  before := Node.outlineReversed o s.before

namespace Nesting

/-- What is kept of a nesting. -/
def outline (n : Nesting) : Nesting where
  opened := n.opened.map fun s => s.outline o
  nodes := Node.outlineReversed o n.nodes

/-- Closing a section commutes with outlining. -/
theorem withKind_close_outline (n : Nesting) (name closing : Fragment) :
    withKind ((n.outline o).close (o.name name) (o.tag closing)) =
      (withKind (n.close name closing)).map fun next => next.outline o := by
  obtain ⟨opened, nodes⟩ := n
  cases opened with
  | nil => rfl
  | cons s outer =>
    by_cases h : s.name.text = name.text
    · have houtlined : (o.name s.name).text = (o.name name).text := (o.name_text_iff _ _).2 h
      have hnode : Node.outline o (.block s.polarity s.name s.opening closing nodes.reverse) =
          some (.block s.polarity (o.name s.name) (o.tag s.opening) (o.tag closing)
            (Node.outlineReversed o nodes).reverse) := by
        rw [Node.outline, Node.outlineReversed, List.reverse_reverse]
      simp only [close, outline, List.map_cons, OpenSection.outline, if_pos h, if_pos houtlined]
      simp [withKind, Except.map, Node.outlineReversed_cons, hnode]
    · have houtlined : ¬ (o.name s.name).text = (o.name name).text :=
        fun heq => h ((o.name_text_iff _ _).1 heq)
      simp only [close, outline, List.map_cons, OpenSection.outline, if_neg h, if_neg houtlined]
      rfl

/-- Taking up a token commutes with outlining; a text that is left out changes nothing. -/
theorem withKind_step_outline (n : Nesting) (t : Token) :
    withKind ((n.outline o).run (t.outline o).toList) =
      (withKind (n.step t)).map fun next => next.outline o := by
  obtain ⟨kind, whole, beginsLine⟩ := t
  cases kind with
  | text =>
    cases h : o.text whole <;>
      simp [Token.outline, step, run, push, withKind, Except.bind, Except.map, outline, h,
        Node.outlineReversed_cons, Node.outline]
  | sectionClose name =>
    rw [step, ← withKind_close_outline]
    show withKind (((n.outline o).close (o.name name) (o.tag whole)).bind _) = _
    rw [withKind_bind]
    cases (n.outline o).close (o.name name) (o.tag whole) <;> rfl
  | interpolation | inclusion =>
    simp [Token.outline, TokenKind.outline, step, run, push, withKind, Except.bind, Except.map,
      outline, Node.outlineReversed_cons, Node.outline]
  | sectionOpen | comment | setDelimiters => rfl

/-- Taking up tokens one after the other commutes with outlining. -/
theorem withKind_run_outline (n : Nesting) (ts : List Token) :
    withKind ((n.outline o).run (ts.filterMap fun t => t.outline o)) =
      (withKind (n.run ts)).map fun next => next.outline o := by
  induction ts generalizing n with
  | nil => rfl
  | cons t ts ih =>
    have hcons : (t :: ts).filterMap (fun t => t.outline o) =
        (t.outline o).toList ++ ts.filterMap fun t => t.outline o := by
      cases h : t.outline o <;> simp [h]
    rw [hcons, run_append, withKind_bind, withKind_step_outline, run, withKind_bind]
    cases n.step t with
    | error flaw => rfl
    | ok next => exact ih next

/-- Finishing a tree commutes with outlining. -/
theorem withKind_finish_outline (n : Nesting) :
    withKind (n.outline o).finish = (withKind n.finish).map (Node.outlineAll o) := by
  obtain ⟨opened, nodes⟩ := n
  cases opened with
  | nil => simp [finish, outline, withKind, Except.map, Node.outlineReversed]
  | cons s outer => rfl

end Nesting

/-- The tree of outlined tokens is the outline of the tree. -/
theorem Node.withKind_ofTokens_outline (ts : List Token) :
    withKind (ofTokens (ts.filterMap fun t => t.outline o)) =
      (withKind (ofTokens ts)).map (outlineAll o) := by
  have hempty : Nesting.empty.outline o = .empty := rfl
  have hrun := Nesting.withKind_run_outline o .empty ts
  rw [ofTokens, withKind_bind, ofTokens, withKind_bind, ← hempty, hrun, hempty]
  cases withKind (Nesting.empty.run ts) with
  | error kind => rfl
  | ok n => exact Nesting.withKind_finish_outline o n

/-- Tokens with the same outline have trees with the same outline, or are flawed in the same way. -/
theorem Node.withKind_ofTokens_of_outline_eq {o o' : Outline} {ts ts' : List Token}
    (h : ts.filterMap (fun t => t.outline o) = ts'.filterMap fun t => t.outline o') :
    (withKind (ofTokens ts)).map (outlineAll o) = (withKind (ofTokens ts')).map (outlineAll o') := by
  rw [← withKind_ofTokens_outline, h, withKind_ofTokens_outline]

/-! ## Lines -/

namespace Token

/-- A function that puts tokens in place of a token, the first of them with its flag and the rest
without one. -/
def KeepsFlag (f : Token → List Token) : Prop :=
  ∀ t, ∃ u us, f t = u :: us ∧ u.beginsLine = t.beginsLine ∧ ∀ v ∈ us, v.beginsLine = false

namespace KeepsFlag

variable {f : Token → List Token} (hf : KeepsFlag f)

include hf

/-- A line is begun by what is put in place of its first token. -/
theorem exists_flatMap_cons (t : Token) (ts : List Token) :
    ∃ u us, (t :: ts).flatMap f = u :: us ∧ u.beginsLine = t.beginsLine := by
  obtain ⟨u, us, ht, hflag, -⟩ := hf t
  exact ⟨u, us ++ ts.flatMap f, by rw [List.flatMap_cons, ht]; rfl, hflag⟩

/-- What is put in place of tokens without flags has no flags. -/
theorem beginsLine_flatMap {ts : List Token} (h : ∀ t ∈ ts, t.beginsLine = false) :
    ∀ v ∈ ts.flatMap f, v.beginsLine = false := by
  intro v hv
  obtain ⟨t, ht, hv⟩ := List.mem_flatMap.1 hv
  obtain ⟨u, us, hft, hflag, hus⟩ := hf t
  rw [hft] at hv
  rcases List.mem_cons.1 hv with rfl | hv
  · rw [hflag, h t ht]
  · exact hus v hv

/-- What is put in place of a line has no flag but the first one. -/
theorem beginsLine_tail_flatMap {ts : List Token} (h : ∀ t ∈ ts.tail, t.beginsLine = false) :
    ∀ v ∈ (ts.flatMap f).tail, v.beginsLine = false := by
  cases ts with
  | nil => simp
  | cons t ts =>
    obtain ⟨u, us, ht, -, hus⟩ := hf t
    intro v hv
    rw [List.flatMap_cons, ht] at hv
    rcases List.mem_append.1 hv with hv | hv
    · exact hus v hv
    · exact hf.beginsLine_flatMap h v hv

/-- Tokens in place of which others are put are cut into lines as before. -/
theorem lines_flatMap (ts : List Token) :
    lines (ts.flatMap f) = (lines ts).map fun line => line.flatMap f := by
  rw [lines, List.splitBy_eq_iff]
  refine ⟨?_, ?_, ?_, ?_⟩
  · rw [← List.flatMap_def]
    conv_lhs => rw [← flatten_lines ts, List.flatten_eq_flatMap, List.flatMap_assoc]
    rfl
  · intro hnil
    obtain ⟨line, hline, hempty⟩ := List.mem_map.1 hnil
    obtain ⟨t, line, rfl⟩ := List.exists_cons_of_ne_nil (List.ne_nil_of_mem_splitBy hline)
    obtain ⟨u, us, hu, -⟩ := hf.exists_flatMap_cons t line
    rw [hu] at hempty
    cases hempty
  · intro mapped hmapped
    obtain ⟨line, hline, rfl⟩ := List.mem_map.1 hmapped
    exact isChain_of_forall_tail (hf.beginsLine_tail_flatMap (beginsLine_of_mem_tail hline))
  · rw [List.isChain_map]
    refine (List.isChain_getLast_head_splitBy _ ts).imp ?_
    rintro line next ⟨hline, hnext, hflag⟩
    obtain ⟨t, line, rfl⟩ := List.exists_cons_of_ne_nil hline
    obtain ⟨t', next, rfl⟩ := List.exists_cons_of_ne_nil hnext
    obtain ⟨u, us, hu, -⟩ := hf.exists_flatMap_cons t line
    obtain ⟨u', us', hu', hflag'⟩ := hf.exists_flatMap_cons t' next
    refine ⟨by simp [hu], by simp [hu'], ?_⟩
    simp only [hu', List.head_cons, hflag']
    exact hflag

end KeepsFlag

end Token

/-! ## Settling -/

/-- Texts, flags and indents are kept. -/
structure Outline.KeepsText (o : Outline) : Prop where
  text : ∀ f, ∃ g, o.text f = some g ∧ g.text = f.text
  indent : ∀ i, o.indent i = i
  beginsLine : ∀ b, o.beginsLine b = b

namespace Token

section

variable {o : Outline} (ho : o.KeepsText)

include ho

/-- Where texts are kept, something is kept of every token. -/
theorem exists_outline (t : Token) :
    ∃ u, t.outline o = some u ∧ u.kind = t.kind.outline o ∧ u.beginsLine = t.beginsLine ∧
      (t.kind = .text → u.whole.text = t.whole.text) := by
  obtain ⟨kind, whole, beginsLine⟩ := t
  cases kind with
  | text =>
    obtain ⟨g, hg, htext⟩ := ho.text whole
    refine ⟨⟨.text, g, o.beginsLine beginsLine⟩, ?_, rfl, ho.beginsLine _, fun _ => htext⟩
    simp [outline, hg]
  | _ => exact ⟨_, rfl, rfl, ho.beginsLine _, nofun⟩

/-- Tokens are cut into lines as before. -/
theorem lines_outline (ts : List Token) :
    lines (ts.filterMap fun t => t.outline o) =
      (lines ts).map fun line => line.filterMap fun t => t.outline o := by
  have hflat : ∀ us : List Token, us.filterMap (fun t => t.outline o) =
      us.flatMap fun t => (t.outline o).toList := by
    intro us
    induction us with
    | nil => rfl
    | cons u us ih => cases h : u.outline o <;> simp [h, ih]
  have hkeeps : KeepsFlag fun t => (t.outline o).toList := by
    intro t
    obtain ⟨u, hu, -, hflag, -⟩ := exists_outline ho t
    exact ⟨u, [], by simp [hu], hflag, by simp⟩
  simp only [hflat]
  exact hkeeps.lines_flatMap ts

/-- A line is standalone if its outline is. -/
theorem isStandaloneLine_outline (line : List Token) :
    isStandaloneLine (line.filterMap fun t => t.outline o) = isStandaloneLine line := by
  have hkind : ∀ kind : TokenKind, (kind.outline o).isStandalone = kind.isStandalone := by
    intro kind
    cases kind <;> rfl
  have hany : ∀ ts : List Token, (ts.filterMap fun t => t.outline o).any
      (fun t => t.kind.isStandalone) = ts.any fun t => t.kind.isStandalone := by
    intro ts
    induction ts with
    | nil => rfl
    | cons t ts ih =>
      obtain ⟨u, hu, hukind, -⟩ := exists_outline ho t
      simp [hu, ih, hukind, hkind]
  have hall : ∀ ts : List Token, (ts.filterMap fun t => t.outline o).all fitsStandaloneLine =
      ts.all fitsStandaloneLine := by
    intro ts
    induction ts with
    | nil => rfl
    | cons t ts ih =>
      obtain ⟨u, hu, hukind, -, htext⟩ := exists_outline ho t
      have hfits : u.fitsStandaloneLine = t.fitsStandaloneLine := by
        unfold fitsStandaloneLine
        rw [hukind]
        cases h : t.kind with
        | text => simp [TokenKind.outline, htext h]
        | _ => rfl
      simp [hu, ih, hfits]
  rw [isStandaloneLine, isStandaloneLine, hany, hall]

/-- Taking text away commutes with outlining. -/
theorem dropText_outline (indent : List Char) (line : List Token) :
    dropText indent (line.filterMap fun t => t.outline o) =
      (dropText indent line).filterMap fun t => t.outline o := by
  induction line generalizing indent with
  | nil => rfl
  | cons t ts ih =>
    obtain ⟨u, hu, hukind, -, htext⟩ := exists_outline ho t
    rw [List.filterMap_cons_some hu, dropText, dropText, hukind]
    cases hkind : t.kind with
    | text => simp [TokenKind.outline, ih, htext hkind]
    | inclusion name i =>
      have hindented : outline o { t with kind := .inclusion name indent } =
          some { u with kind := .inclusion (o.name name) indent } := by
        rw [outline, hkind] at hu
        obtain rfl := Option.some.inj hu
        simp [outline, TokenKind.outline, ho.indent]
      simp [TokenKind.outline, ih, hindented]
    | _ => simp [TokenKind.outline, ih, hu]

/-- Settling lines commutes with outlining. -/
theorem settle_outline (ts : List Token) :
    settle (ts.filterMap fun t => t.outline o) =
      (settle ts).filterMap fun t => t.outline o := by
  have hline : ∀ line, settleLine (line.filterMap fun t => t.outline o) =
      (settleLine line).filterMap fun t => t.outline o := by
    intro line
    rw [settleLine, settleLine, isStandaloneLine_outline ho]
    split
    · exact dropText_outline ho [] line
    · rfl
  rw [settle, settle, lines_outline ho, List.flatMap_map, List.filterMap_flatMap]
  exact List.flatMap_congr fun line _ => hline line

end

end Token

/-! ## Contents -/

/-- All but the places and the markers of tags. -/
def Outline.contents : Outline where
  text f := some ⟨0, f.text⟩
  name f := ⟨0, f.text⟩
  tag _ := ⟨0, []⟩
  indent i := i
  beginsLine b := b
  name_text_iff _ _ := Iff.rfl

theorem Outline.keepsText_contents : contents.KeepsText :=
  ⟨fun f => ⟨⟨0, f.text⟩, rfl, rfl⟩, fun _ => rfl, fun _ => rfl⟩

/-- Tokens with the same contents. -/
def Token.SameContents (ts ts' : List Token) : Prop :=
  ts.filterMap (fun t => t.outline .contents) = ts'.filterMap fun t => t.outline .contents

/-- Tokens with the same contents have, after settling, trees with the same contents. -/
theorem Node.exists_ofTokens_of_sameContents {ts ts' : List Token} {ns : List Node}
    (h : Token.SameContents ts ts') (hns : ofTokens (Token.settle ts) = .ok ns) :
    ∃ ns', ofTokens (Token.settle ts') = .ok ns' ∧
      outlineAll .contents ns' = outlineAll .contents ns := by
  have hsettled := congrArg Token.settle h
  rw [Token.settle_outline Outline.keepsText_contents,
    Token.settle_outline Outline.keepsText_contents] at hsettled
  have htrees := withKind_ofTokens_of_outline_eq hsettled
  obtain ⟨ns', hns'⟩ := (exists_eq_ok_iff_of_withKind_map_eq htrees).1 ⟨ns, hns⟩
  rw [hns, hns'] at htrees
  exact ⟨ns', hns', (Except.ok.inj htrees).symm⟩

end Mustache
