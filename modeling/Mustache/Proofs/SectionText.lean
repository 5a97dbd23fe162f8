import Mustache.Proofs.Excerpts
import Mustache.Proofs.Growth
import Mustache.Proofs.Headroom
import Mustache.Proofs.IndentedLines

/-!
# The raw text of a section

A section lambda gets the raw text of its section.  This is what stands between the open
tag and the close tag that matches it, and it compiles by itself under the pair that is
live at the end of the template, unless delimiters are set behind the open tag.  What it
compiles to is the body of the section at another place, as long as the lines of the
section are settled in the same way by themselves as in the template.

Main results:

- Theorem `Instr.exists_block_within`: every section of a program comes from one of the tree.
- Theorem `Token.SectionTokens.exists_of_grows`: every section of a tree stands between
  its tags among the tokens.
- Theorem `Template.section_of_compile`: the raw text of a section compiles to its body,
  and a lambda that answers its argument renders what the body renders.
-/

namespace Mustache

/-! ## Sections of a program -/

/-- The instruction is one of these instructions or stands inside one of them, at any depth. -/
inductive Instr.Within (i : Instr) : List Instr → Prop
  | here {is : List Instr} (h : i ∈ is) : Within i is
  | inside {is : List Instr} {j : Instr} (hj : j ∈ is) (h : Within i j.body) : Within i is

namespace Instr

variable {source : List Char}

theorem Within.not_nil {i : Instr} : ¬ i.Within [] := by
  intro h
  cases h with
  | here h => cases h
  | inside hj _ => cases hj

/-- What stands among some of the instructions stands among all of them. -/
theorem Within.mono {i : Instr} {is js : List Instr} (h : i.Within is) (hsubset : is ⊆ js) :
    i.Within js := by
  cases h with
  | here h => exact .here (hsubset h)
  | inside hj h => exact .inside (hsubset hj) h

/-- The instructions inside an instruction for a node are those for the nodes inside. -/
theorem body_ofNode (n : Node) : (ofNode source n).body = ofNodes source n.body := by
  cases n <;> rfl

/-- Joining text leaves no new instructions but text. -/
theorem eq_or_mem_of_mem_cons {i j : Instr} {is : List Instr} (h : j ∈ cons i is) :
    (∃ whole, j = text whole) ∨ j = i ∨ j ∈ is := by
  unfold cons at h
  split at h
  · split at h
    · rcases List.mem_cons.1 h with rfl | h
      · exact .inl ⟨_, rfl⟩
      · exact .inr (.inr (List.mem_cons_of_mem _ h))
    · exact .inr (List.mem_cons.1 h)
  · exact .inr (List.mem_cons.1 h)

/-- Every instruction but text is the instruction for a node. -/
theorem exists_of_mem_ofNodes {i : Instr} {ns : List Node} (h : i ∈ ofNodes source ns) :
    (∃ whole, i = text whole) ∨ ∃ n ∈ ns, i = ofNode source n := by
  induction ns with
  | nil => cases h
  | cons n ns ih =>
    rcases eq_or_mem_of_mem_cons h with htext | rfl | h
    · exact .inl htext
    · exact .inr ⟨n, List.mem_cons_self, rfl⟩
    · rcases ih h with htext | ⟨m, hm, heq⟩
      · exact .inl htext
      · exact .inr ⟨m, List.mem_cons_of_mem _ hm, heq⟩

/-- Every instruction but text, at every depth, is the instruction for a node of the tree. -/
theorem exists_of_within {i : Instr} {ns : List Node} (h : i.Within (ofNodes source ns)) :
    (∃ whole, i = text whole) ∨ ∃ n : Node, n.Within ns ∧ i = ofNode source n := by
  generalize his : ofNodes source ns = is at h
  induction h generalizing ns with
  | here hi =>
    subst his
    rcases exists_of_mem_ofNodes hi with htext | ⟨n, hn, heq⟩
    · exact .inl htext
    · exact .inr ⟨n, .here hn, heq⟩
  | inside hj hwithin ih =>
    subst his
    rcases exists_of_mem_ofNodes hj with ⟨whole, rfl⟩ | ⟨n, hn, rfl⟩
    · exact absurd hwithin Within.not_nil
    · rcases ih (body_ofNode n).symm with htext | ⟨m, hm, heq⟩
      · exact .inl htext
      · exact .inr ⟨m, .inside hn hm, heq⟩

/-- Every section of a program comes from a section of the tree. -/
theorem exists_block_within {polarity : Polarity} {target : Reference} {raw : Fragment}
    {body : List Instr} {ns : List Node}
    (h : (block polarity target raw body).Within (ofNodes source ns)) :
    ∃ name opening closing inner,
      (Node.block polarity name opening closing inner).Within ns ∧
        ofNode source (.block polarity name opening closing inner) =
          block polarity target raw body := by
  rcases exists_of_within h with ⟨whole, htext⟩ | ⟨n, hn, heq⟩
  · cases htext
  · cases n with
    | block polarity' name opening closing inner =>
      obtain rfl : polarity = polarity' := (Instr.block.inj heq).1
      exact ⟨name, opening, closing, inner, hn, heq.symm⟩
    | _ => cases heq

end Instr

/-! ## Sections among tokens -/

mutual

/-- Nothing is changed by an offset of zero. -/
theorem Node.outline_shifted_zero : ∀ n : Node, n.outline (.shifted 0) = some n
  | .text _ => rfl
  | .interpolation .. => rfl
  | .block polarity name opening closing body => by
    rw [Node.outline, Node.outlineAll_shifted_zero body]
    rfl
  | .inclusion .. => rfl

theorem Node.outlineAll_shifted_zero : ∀ ns : List Node, Node.outlineAll (.shifted 0) ns = ns
  | [] => rfl
  | n :: ns => by
    rw [Node.outlineAll, Node.outline_shifted_zero n, Node.outlineAll_shifted_zero ns]
    rfl

end

namespace Token

/-- The token stands inside the fragment. -/
def Inside (f : Fragment) (t : Token) : Prop :=
  f.start ≤ t.whole.start ∧ t.whole.stop ≤ f.stop

instance (f : Fragment) (t : Token) : Decidable (t.Inside f) :=
  inferInstanceAs (Decidable (_ ∧ _))

/-- All text inside the fragment is left when the lines of the tokens are settled. -/
def KeepsText (tokens : List Token) (f : Fragment) : Prop :=
  ∀ t ∈ tokens, t.Inside f → t.kind = .text → t ∈ settle tokens

/-- No inclusion inside the fragment gets an indent when the lines of the tokens are settled. -/
def KeepsIndents (tokens : List Token) (f : Fragment) : Prop :=
  ∀ t ∈ settle tokens, t.Inside f → ∀ name indent, t.kind = .inclusion name indent → indent = []

/-- No delimiters are set behind an offset. -/
def KeepsDelimiters (tokens : List Token) (offset : Nat) : Prop :=
  ∀ t ∈ tokens, offset ≤ t.whole.start → t.kind ≠ .setDelimiters

/-- A section among tokens: an open tag, tokens in which all sections are closed, and the close tag
of the same name. -/
structure SectionTokens (tokens : List Token) where
  before : List Token
  opening : Token
  inner : List Token
  closing : Token
  after : List Token
  polarity : Polarity
  name : Fragment
  closingName : Fragment
  split : tokens = before ++ opening :: (inner ++ closing :: after)
  opening_kind : opening.kind = .sectionOpen polarity name
  closing_kind : closing.kind = .sectionClose closingName
  name_text : name.text = closingName.text
  balanced : Balanced (inner.filterMap bracket?)

namespace SectionTokens

variable {pair : Delimiters} {source : List Char} {stream : Stream}

/-- What stands between the two tags. -/
def raw {tokens : List Token} (sec : SectionTokens tokens) : Fragment :=
  ⟨sec.opening.whole.stop, sec.inner.flatMap fun t => t.whole.text⟩

/-- The text up to the end of the open tag. -/
def textBefore {tokens : List Token} (sec : SectionTokens tokens) : List Char :=
  (sec.before ++ [sec.opening]).flatMap fun t => t.whole.text

/-- What stands between the tags of a section begins after the text up to the end of the open tag,
and ends where the close tag begins. -/
theorem exists_source_eq (h : ofSource pair source = .ok stream)
    (sec : SectionTokens stream.tokens) :
    sec.raw.start = Text.byteLength sec.textBefore ∧ sec.raw.stop = sec.closing.whole.start ∧
      ∃ after, source = sec.textBefore ++ (sec.raw.text ++ after) := by
  have hopening := start_eq_of_ofSource h sec.split
  have hsplit : stream.tokens =
      (sec.before ++ sec.opening :: sec.inner) ++ sec.closing :: sec.after :=
    sec.split.trans (by simp)
  have hclosing := start_eq_of_ofSource h hsplit
  refine ⟨?_, ?_, (sec.closing :: sec.after).flatMap fun t => t.whole.text, ?_⟩
  · simp [raw, textBefore, Fragment.stop, hopening]
  · simp [raw, Fragment.stop, hopening, hclosing, Nat.add_assoc]
  · calc
      source = stream.tokens.flatMap fun t => t.whole.text := (flatMap_text_of_ofSource h).symm
      _ = _ := congrArg (List.flatMap fun t => t.whole.text) sec.split
      _ = _ := by simp [textBefore, raw]

/-- What stands between the tags of a section stands in the source, and is what is cut out of it
there. -/
theorem between_eq_raw (h : ofSource pair source = .ok stream)
    (sec : SectionTokens stream.tokens) :
    sec.raw.StandsIn source ∧
      Fragment.between source sec.opening.whole.stop sec.closing.whole.start = sec.raw := by
  obtain ⟨hstart, hstop, after, hsource⟩ := sec.exists_source_eq h
  have hstands : sec.raw.StandsIn source := ⟨sec.textBefore, after, hsource, hstart⟩
  refine ⟨hstands, ?_⟩
  rw [← hstop]
  exact congrArg (Fragment.mk _) hstands.slice_span

/-- The tokens inside a section stand inside what stands between its tags, and no token stands there
twice. -/
theorem order (h : ofSource pair source = .ok stream) (sec : SectionTokens stream.tokens) :
    sec.inner.Pairwise Precedes ∧ (∀ t ∈ sec.inner, t.Inside sec.raw) ∧
      (∀ t ∈ sec.inner ++ sec.closing :: sec.after, sec.raw.start ≤ t.whole.start) ∧
      ∀ t ∈ sec.inner, (∀ u ∈ sec.before, u.Precedes t) ∧ ∀ u ∈ sec.after, t.Precedes u := by
  have hpairwise := pairwise_precedes_of_ofSource h
  rw [sec.split, List.pairwise_append] at hpairwise
  obtain ⟨-, hpairwise, hbefore⟩ := hpairwise
  rw [List.pairwise_cons, List.pairwise_append] at hpairwise
  obtain ⟨hopening, hinner, -, hbehind⟩ := hpairwise
  have hstop := (sec.exists_source_eq h).2.1
  refine ⟨hinner, ?_, fun t ht => (hopening t ht).2, ?_⟩
  · intro t ht
    have hfirst := hopening t (List.mem_append_left _ ht)
    have hlast := hbehind t ht sec.closing List.mem_cons_self
    refine ⟨hfirst.2, ?_⟩
    rw [hstop]
    exact hlast.2
  · intro t ht
    refine ⟨fun u hu => hbefore u hu t ?_, fun u hu => hbehind t ht u ?_⟩
    · simp [ht]
    · simp [hu]

/-- What stands between the tags has tokens of its own, if no delimiters are set behind the open
tag.  They are the tokens inside the section, at other places. -/
theorem exists_ofSource_raw (h : ofSource pair source = .ok stream)
    (sec : SectionTokens stream.tokens) (hkeeps : KeepsDelimiters stream.tokens sec.raw.start) :
    ∃ own, ofSource stream.live sec.raw.text = .ok ⟨own, stream.live⟩ ∧
      sec.inner.filterMap (fun t => t.outline (.shifted 0)) =
        own.filterMap fun t => t.outline (.shifted sec.raw.start) := by
  have hsplit : stream.tokens =
      (sec.before ++ [sec.opening]) ++ (sec.inner ++ sec.closing :: sec.after) :=
    sec.split.trans (by simp)
  have hbehindOpening : ∀ t ∈ sec.inner ++ sec.closing :: sec.after, t.kind ≠ .setDelimiters := by
    intro t ht
    apply hkeeps t _ ((sec.order h).2.2.1 t ht)
    rw [hsplit]
    exact List.mem_append_right _ ht
  obtain ⟨first, last, own, hown, hinner, hbehind, houtline⟩ := exists_ofSource_excerpt h hsplit
  have hlast := hbehind.eq_of_forall_ne fun t ht => hbehindOpening t (List.mem_append_right _ ht)
  have hfirst := hinner.eq_of_forall_ne fun t ht => hbehindOpening t (List.mem_append_left _ ht)
  subst hfirst
  rw [hlast, (sec.exists_source_eq h).1]
  exact ⟨own, hown, houtline⟩

/-- What is left of tokens that stand elsewhere is not a token of the section. -/
theorem not_mem_of_settlesTo {ts us : List Token} (h : SettlesTo ts us) {t : Token}
    (ht : ∀ u ∈ ts, u.Precedes t ∨ t.Precedes u) : t ∉ us := by
  intro hmem
  obtain ⟨u, hu, hwhole⟩ := h.exists_whole_eq hmem
  rcases ht u hu with ⟨hlong, hnext⟩ | ⟨hlong, hnext⟩
  · rw [hwhole] at hlong hnext
    omega
  · rw [hwhole] at hnext
    omega

/-- If all text inside a section is left and no inclusion inside gets an indent, the section settles
to itself. -/
theorem eq_inner_of_keeps (h : ofSource pair source = .ok stream)
    (sec : SectionTokens stream.tokens) {before left after : List Token}
    (hsettle : settle stream.tokens = before ++ sec.opening :: (left ++ sec.closing :: after))
    (hbefore : SettlesTo sec.before before) (hleft : SettlesTo sec.inner left)
    (hafter : SettlesTo sec.after after) (htext : KeepsText stream.tokens sec.raw)
    (hindents : KeepsIndents stream.tokens sec.raw) : left = sec.inner := by
  obtain ⟨hinner, hinside, -, helsewhere⟩ := sec.order h
  apply hleft.eq_of_keeps hinner
  · intro t ht hkind
    have hstream : t ∈ stream.tokens := by
      rw [sec.split]
      simp [ht]
    have hmem := htext t hstream (hinside t ht) hkind
    rw [hsettle] at hmem
    have hnotBefore : t ∉ before :=
      not_mem_of_settlesTo hbefore fun u hu => .inl ((helsewhere t ht).1 u hu)
    have hnotAfter : t ∉ after :=
      not_mem_of_settlesTo hafter fun u hu => .inr ((helsewhere t ht).2 u hu)
    have hopening : t ≠ sec.opening := by
      rintro rfl
      cases sec.opening_kind.symm.trans hkind
    have hclosing : t ≠ sec.closing := by
      rintro rfl
      cases sec.closing_kind.symm.trans hkind
    simpa [hnotBefore, hnotAfter, hopening, hclosing] using hmem
  · intro t ht
    obtain ⟨u, hu, hwhole⟩ := hleft.exists_whole_eq ht
    have hsame := hinside u hu
    rw [Inside, hwhole] at hsame
    apply hindents t _ hsame
    rw [hsettle]
    simp [ht]

/-- Every section of a tree stands between its tags among the tokens.  Its body grows out of what is
left of the tokens inside, which are all of them if the section settles to itself. -/
theorem exists_of_grows (h : ofSource pair source = .ok stream) {ns : List Node}
    (hns : Grows (settle stream.tokens) ns) {polarity : Polarity} {name opening closing : Fragment}
    {body : List Node} (hwithin : (Node.block polarity name opening closing body).Within ns) :
    ∃ sec : SectionTokens stream.tokens, sec.polarity = polarity ∧ sec.name = name ∧
      sec.opening.whole = opening ∧ sec.closing.whole = closing ∧
      (∃ nodes, Node.ofTokens sec.inner = .ok nodes) ∧
      (KeepsText stream.tokens sec.raw → KeepsIndents stream.tokens sec.raw →
        Node.ofTokens sec.inner = .ok body) := by
  obtain ⟨before, o, left, c, after, name', hsettle, hopen, rfl, hclose, rfl, hname, hbody⟩ :=
    hns.exists_split hwithin
  have hsettles := settlesTo_settle (unindented_of_ofSource h)
  rw [hsettle] at hsettles
  obtain ⟨before', rest, hrest, hbefore, hsettles⟩ :=
    hsettles.exists_split fun name indent => by simp [hopen]
  obtain ⟨inner, after', rfl, hinner, hafter⟩ :=
    hsettles.exists_split fun name indent => by simp [hclose]
  have hcheck := Node.ofTokens_check left
  rw [Node.ofTokens_eq_ok_iff.2 hbody] at hcheck
  have hbalanced := Bracket.check_eq_ok_iff.1 hcheck.symm
  rw [hinner.filterMap_bracket?] at hcheck hbalanced
  let sec : SectionTokens stream.tokens :=
    ⟨before', o, inner, c, after', polarity, name, name', hrest, hopen, hclose, hname, hbalanced⟩
  refine ⟨sec, rfl, rfl, rfl, rfl, ?_, ?_⟩
  · have hnested := (Node.ofTokens_check inner).trans hcheck.symm
    cases hnodes : Node.ofTokens inner with
    | ok nodes => exact ⟨nodes, rfl⟩
    | error flaw =>
      rw [hnodes] at hnested
      cases hnested
  · intro htext hindents
    rw [← eq_inner_of_keeps h sec hsettle hbefore hinner hafter htext hindents]
    exact Node.ofTokens_eq_ok_iff.2 hbody

end SectionTokens

end Token

/-! ## Compiling the raw text -/

/-- A text whose tokens nest has a tree.  If all of its text is left when its lines are settled, the
tree is that of the tokens as they are. -/
theorem Template.exists_tree_of_ofTokens {pair : Delimiters} {source : List Char}
    {stream : Token.Stream} (h : Token.ofSource pair source = .ok stream) {nodes : List Node}
    (hnodes : Node.ofTokens stream.tokens = .ok nodes) :
    ∃ own, tree pair source = .ok (own, stream.live) ∧
      ((∀ t ∈ stream.tokens, t.kind = .text → t ∈ Token.settle stream.tokens) → own = nodes) := by
  have hcheck := Node.ofTokens_check (Token.settle stream.tokens)
  rw [Token.filterMap_bracket?_settle, ← Node.ofTokens_check, hnodes] at hcheck
  cases hown : Node.ofTokens (Token.settle stream.tokens) with
  | error flaw =>
    rw [hown] at hcheck
    cases hcheck
  | ok own =>
    refine ⟨own, ?_, ?_⟩
    · rw [tree, h]
      show (Node.ofTokens (Token.settle stream.tokens)).map _ = _
      rw [hown]
      rfl
    · intro htext
      rw [Token.settle_eq_self_of_keeps h htext, hnodes] at hown
      exact (Except.ok.inj hown).symm

namespace Token.SectionTokens

variable {pair : Delimiters} {source : List Char} {stream : Stream}

/-- The text between the tags of a section has a tree under the pair at the end of the template, if
its tokens nest and no delimiters are set behind the open tag.  If all of its text is left when its
lines are settled, the tree is that of the tokens of the section, at another place. -/
theorem exists_tree_raw (h : ofSource pair source = .ok stream)
    (sec : SectionTokens stream.tokens) (hkeeps : KeepsDelimiters stream.tokens sec.raw.start)
    {inner : List Node} (hinner : Node.ofTokens sec.inner = .ok inner) :
    ∃ own nodes, ofSource stream.live sec.raw.text = .ok ⟨own, stream.live⟩ ∧
      Template.tree stream.live sec.raw.text = .ok (nodes, stream.live) ∧
      ((∀ t ∈ own, t.kind = .text → t ∈ settle own) →
        inner = Node.outlineAll (.shifted sec.raw.start) nodes) := by
  obtain ⟨own, hown, houtline⟩ := sec.exists_ofSource_raw h hkeeps
  have hshifted := Node.withKind_ofTokens_of_outline_eq houtline
  rw [hinner] at hshifted
  cases hnodes : Node.ofTokens own with
  | error flaw =>
    rw [hnodes] at hshifted
    cases hshifted
  | ok nodes =>
    rw [hnodes] at hshifted
    obtain ⟨own', htree, hsame⟩ := Template.exists_tree_of_ofTokens hown hnodes
    refine ⟨own, own', hown, htree, ?_⟩
    intro htext
    rw [hsame htext, ← Except.ok.inj hshifted, Node.outlineAll_shifted_zero]

/-- The instructions for the nodes of a section are those for the nodes of its raw text, later by
the offset at which the raw text begins. -/
theorem ofNodes_outline_shifted (h : ofSource pair source = .ok stream)
    (sec : SectionTokens stream.tokens) {nodes : List Node} {live : Delimiters}
    (htree : Template.tree stream.live sec.raw.text = .ok (nodes, live)) :
    Instr.ofNodes source (Node.outlineAll (.shifted sec.raw.start) nodes) =
      (Instr.ofNodes sec.raw.text nodes).map (Instr.shift sec.raw.start) := by
  obtain ⟨hstart, -, after, hsource⟩ := sec.exists_source_eq h
  rw [hstart, hsource, Instr.ofNodes_shifted _ _ _ (Template.standsIn_of_tree htree),
    Instr.shiftAll_eq_map]

end Token.SectionTokens

/-! ## Lambdas that answer their argument -/

/-- What has been done after a section lambda was asked about a raw text and answered with it. -/
def Progress.afterEcho {σ : Type} (host : Host σ) (l : Lambda) (raw : String) (p : Progress σ) :
    Progress σ :=
  { p with
    calls := p.calls ++ [⟨l, some raw⟩]
    host := (host.answer l (some raw) p.host).2
    events := p.events ++ if raw.isEmpty then [] else [.expandingLambda (Event.sizeOf raw)] }

/-- What has been done when a section lambda has been asked about a raw text. -/
def Progress.asked {σ : Type} (host : Host σ) (l : Lambda) (raw : String) (p : Progress σ) :
    Progress σ :=
  { p with
    calls := p.calls ++ [⟨l, some raw⟩]
    host := (host.answer l (some raw) p.host).2 }

/-- The first rendering is stopped at the limit, or both come to the same, but that an error is
moved. -/
def Echoes {σ : Type} (k : Nat) (text source : String)
    (x y : EStateM.Result Error (Progress σ) Unit) : Prop :=
  (∃ limit q, x = .error (.includeLimit limit) q) ∨ (∃ q, x = .ok () q ∧ y = .ok () q) ∨
    ∃ e e' q, e.MovesTo k text source e' ∧ x = .error e q ∧ y = .error e' q

namespace Render

variable {σ : Type} {s : Setting σ} {t part : Template} {ctx : Context} {target : Reference}
  {raw : Fragment} {body : List Instr} {l : Lambda}

/-- A text that is not empty is expanded by running the template that it is compiled to. -/
theorem expand_eq_runTemplate {text : String} (hpart : Template.compile t.live text = .ok part)
    (hne : text.isEmpty = false) (depth : Nat) (p : Progress σ) :
    expand s (nestedAt s (depth + 1)) t ctx text p = runTemplate s depth part ctx
      { p with events := p.events ++ [.expandingLambda (Event.sizeOf text)] } := by
  unfold expand
  simp only [hne, nestedAt, enter_some, hpart]
  rfl

/-- A section lambda that answers its argument expands the raw text. -/
theorem runInstr_eq_expand_of_echo (hresolve : ctx.resolve target = some (.lambda l))
    (hkind : l.kind = .block) {p : Progress σ}
    (hecho : (s.host.answer l (some raw.toString) p.host).1 = raw.toString)
    (nested : Option (Nested σ)) :
    runInstr s nested t ctx (.block .upright target raw body) p =
      expand s nested t ctx raw.toString (p.asked s.host l raw.toString) := by
  have hcall : Call.ofLambda l raw.toString = ⟨l, some raw.toString⟩ := by
    simp [Call.ofLambda, hkind]
  simp only [runInstr, hresolve, hcall]
  show expand s nested t ctx (s.host.answer l (some raw.toString) p.host).1
    (p.asked s.host l raw.toString) = _
  rw [hecho]

/-- A section lambda that answers its argument runs the template that the raw text is compiled to,
unless the limit is hit. -/
theorem runInstr_of_echo (hresolve : ctx.resolve target = some (.lambda l))
    (hkind : l.kind = .block) (hpart : Template.compile t.live raw.toString = .ok part)
    (hempty : raw.toString.isEmpty = true → part.program = []) {p : Progress σ}
    (hecho : (s.host.answer l (some raw.toString) p.host).1 = raw.toString) (depth : Nat) :
    (∃ limit q, runInstr s (nestedAt s depth) t ctx (.block .upright target raw body) p =
        .error (.includeLimit limit) q) ∨
      runInstr s (nestedAt s depth) t ctx (.block .upright target raw body) p =
        runAll s (nestedAt s depth) part ctx part.program
          (p.afterEcho s.host l raw.toString) := by
  rw [runInstr_eq_expand_of_echo hresolve hkind hecho]
  cases hraw : raw.toString.isEmpty with
  | true =>
    right
    have hafter : p.afterEcho s.host l raw.toString = p.asked s.host l raw.toString := by
      simp [Progress.afterEcho, Progress.asked, hraw]
    rw [hempty hraw, hafter, runAll, expand, if_pos hraw]
  | false =>
    have hafter : p.afterEcho s.host l raw.toString =
        { p.asked s.host l raw.toString with
          events := p.events ++ [.expandingLambda (Event.sizeOf raw.toString)] } := by
      simp [Progress.afterEcho, Progress.asked, hraw]
    cases depth with
    | zero =>
      left
      refine ⟨s.limit, p.asked s.host l raw.toString, ?_⟩
      unfold expand
      simp only [hraw]
      rfl
    | succ depth =>
      rw [expand_eq_runTemplate hpart hraw, hafter, ← runTemplate_eq_runAll, Nat.add_comm depth 1]
      rcases runTemplate_raise s s.limit s.limit depth 1 part ctx
        { p.asked s.host l raw.toString with
          events := p.events ++ [.expandingLambda (Event.sizeOf raw.toString)] }
        with hstopped | hsame
      · exact .inl hstopped
      · exact .inr hsame.symm

/-- A section lambda that answers its argument renders what the shifted instructions of its raw text
render. -/
theorem echoes_of_echo {k : Nat} (hresolve : ctx.resolve target = some (.lambda l))
    (hkind : l.kind = .block) (hpart : Template.compile t.live raw.toString = .ok part)
    (hlive : part.live = t.live) (hempty : raw.toString.isEmpty = true → part.program = [])
    {p : Progress σ} (hecho : (s.host.answer l (some raw.toString) p.host).1 = raw.toString)
    (depth : Nat) :
    Echoes k raw.toString t.source
      (runInstr s (nestedAt s depth) t ctx (.block .upright target raw body) p)
      (runAll s (nestedAt s depth) t ctx (part.program.map (Instr.shift k))
        (p.afterEcho s.host l raw.toString)) := by
  rcases runInstr_of_echo hresolve hkind hpart hempty hecho depth with hstopped | hrun
  · exact .inl hstopped
  · right
    rw [hrun, ← Instr.shiftAll_eq_map, ← Template.source_of_compile hpart]
    rcases moved_runAll k hlive ctx part.program (p.afterEcho s.host l part.source)
      with ⟨_, q, hx, hy⟩ | herror
    · exact .inl ⟨q, hx, hy⟩
    · exact .inr herror

end Render

/-! ## Sections of a template -/

/-- An empty text has an empty tree. -/
theorem Template.tree_nil (live : Delimiters) : tree live [] = .ok ([], live) := by
  have hread : Scan.read live [] = ⟨[], .finished live⟩ := Scan.read_of_ended rfl
  rw [tree, Token.ofSource, hread]
  rfl

/-- Take a section of a template that compiles.  Its raw text is what stands between the end of its
open tag and the beginning of the close tag that matches it.  If no delimiters are set behind the
open tag, it compiles by itself under the pair at the end of the template.  If moreover all text
inside the section is left when lines are settled, in the template and in the raw text by itself,
and no inclusion inside gets an indent, what the raw text compiles to is the body of the section,
later by the offset of the raw text.  Then a section lambda that answers its argument renders what
the body renders, unless the limit is hit. -/
theorem Template.section_of_compile {σ : Type} (pair : Delimiters) (source : String) (t : Template)
    (stream : Token.Stream) (polarity : Polarity) (target : Reference) (raw : Fragment)
    (body : List Instr) (hcompile : compile pair source = .ok t)
    (hstream : Token.ofSource pair source.toList = .ok stream)
    (hsection : (Instr.block polarity target raw body).Within t.program) :
    (∃ sec : Token.SectionTokens stream.tokens,
      sec.polarity = polarity ∧ Reference.ofName sec.name = target ∧ raw = sec.raw ∧
        raw.start = sec.opening.whole.stop ∧ raw.stop = sec.closing.whole.start ∧
        raw.StandsIn source.toList) ∧
    (Token.KeepsDelimiters stream.tokens raw.start →
      ∃ part own, compile t.live raw.toString = .ok part ∧
        Token.ofSource t.live raw.text = .ok own ∧
        (Token.KeepsText stream.tokens raw → Token.KeepsIndents stream.tokens raw →
          (∀ u ∈ own.tokens, u.kind = .text → u ∈ Token.settle own.tokens) →
          body = part.program.map (Instr.shift raw.start) ∧
          ∀ (s : Setting σ) (depth : Nat) (ctx : Context) (l : Lambda) (p : Progress σ),
            polarity = .upright → ctx.resolve target = some (.lambda l) → l.kind = .block →
            (s.host.answer l (some raw.toString) p.host).1 = raw.toString →
            Echoes raw.start raw.toString t.source
              (Render.runInstr s (Render.nestedAt s depth) t ctx
                (.block polarity target raw body) p)
              (Render.runAll s (Render.nestedAt s depth) t ctx body
                (p.afterEcho s.host l raw.toString)))) := by
  obtain ⟨stream', nodes, hfrom⟩ := compile_eq_ok_iff.1 hcompile
  obtain rfl : stream = stream' := Except.ok.inj (hstream.symm.trans hfrom.tokens)
  obtain ⟨hlive, hprogram⟩ : t.live = stream.live ∧
      t.program = Instr.ofNodes source.toList nodes := by
    rw [hfrom.template]
    exact ⟨rfl, rfl⟩
  rw [hprogram] at hsection
  obtain ⟨name, opening, closing, inner, hwithin, hnode⟩ := Instr.exists_block_within hsection
  obtain ⟨-, rfl, rfl, rfl⟩ := Instr.block.inj hnode
  obtain ⟨sec, hpolarity, rfl, rfl, rfl, ⟨nested, hnested⟩, hkept⟩ :=
    Token.SectionTokens.exists_of_grows hstream (Node.ofTokens_eq_ok_iff.1 hfrom.nested) hwithin
  have hstop := (sec.exists_source_eq hstream).2.1
  obtain ⟨hstands, hraw⟩ := sec.between_eq_raw hstream
  rw [hraw, hlive]
  refine ⟨⟨sec, hpolarity, rfl, rfl, rfl, hstop, hstands⟩, ?_⟩
  intro hdelimiters
  obtain ⟨own, nodes', hown, htree, hshifted⟩ := sec.exists_tree_raw hstream hdelimiters hnested
  let part : Template := ⟨sec.raw.toString, stream.live, Instr.ofNodes sec.raw.text nodes'⟩
  have hpart : compile stream.live sec.raw.toString = .ok part := by
    rw [compile, Fragment.toString, String.toList_ofList, htree]
    rfl
  refine ⟨part, _, hpart, hown, ?_⟩
  intro htext hindents howntext
  have hinner : inner = Node.outlineAll (.shifted sec.raw.start) nodes' := by
    rw [← hshifted howntext]
    exact Except.ok.inj ((hkept htext hindents).symm.trans hnested)
  have hbody : Instr.ofNodes source.toList inner =
      part.program.map (Instr.shift sec.raw.start) := by
    rw [hinner, sec.ofNodes_outline_shifted hstream htree]
  refine ⟨hbody, ?_⟩
  intro s depth ctx l p hupright hresolve hkind hecho
  have hempty : sec.raw.toString.isEmpty = true → part.program = [] := by
    intro hnone
    have hnil : sec.raw.text = [] := by simpa [Fragment.toString] using hnone
    rw [hnil, tree_nil] at htree
    obtain rfl : [] = nodes' := (Prod.mk.inj (Except.ok.inj htree)).1
    rfl
  rw [hupright, hbody]
  rw [← hlive] at hpart
  exact Render.echoes_of_echo hresolve hkind hpart hlive.symm hempty hecho depth

/-- A section with a text and a variable, whose lambda answers its argument. -/
theorem Template.section_of_compile_variable :
    let source := "a\x7b\x7b#s\x7d\x7db\x7b\x7bx\x7d\x7d\x7b\x7b/s\x7d\x7dc"
    let target := Reference.ofName ⟨4, ['s']⟩
    let raw : Fragment := ⟨7, ['b', '{', '{', 'x', '}', '}']⟩
    let body : List Instr :=
      [.text ⟨7, ['b']⟩, .interpolation .escaped (Reference.ofName ⟨10, ['x']⟩)]
    let tokens : List Token :=
      [⟨.text, ⟨0, ['a']⟩, true⟩,
        ⟨.sectionOpen .upright ⟨4, ['s']⟩, ⟨1, ['{', '{', '#', 's', '}', '}']⟩, false⟩,
        ⟨.text, ⟨7, ['b']⟩, false⟩,
        ⟨.interpolation .escaped ⟨10, ['x']⟩, ⟨8, ['{', '{', 'x', '}', '}']⟩, false⟩,
        ⟨.sectionClose ⟨16, ['s']⟩, ⟨13, ['{', '{', '/', 's', '}', '}']⟩, false⟩,
        ⟨.text, ⟨19, ['c']⟩, false⟩]
    let s : Setting Unit := ⟨64, ⟨fun _ text u => (text.getD "", u)⟩, fun _ _ => pure none⟩
    let l : Lambda := ⟨0, .block⟩
    let ctx := Context.ofView (.map [("s", .lambda l), ("x", .text "1")])
    let p : Progress Unit := ⟨[], [], [], (), .empty⟩
    ∃ t, compile .standard source = .ok t ∧
      Token.ofSource .standard source.toList = .ok ⟨tokens, .standard⟩ ∧
      (Instr.block .upright target raw body).Within t.program ∧
      Token.KeepsDelimiters tokens raw.start ∧ Token.KeepsText tokens raw ∧
      Token.KeepsIndents tokens raw ∧
      (∃ sec : Token.SectionTokens tokens, raw = sec.raw ∧ raw.StandsIn source.toList) ∧
      ∃ part own, compile t.live raw.toString = .ok part ∧
        Token.ofSource t.live raw.text = .ok own ∧
        (∀ u ∈ own.tokens, u.kind = .text → u ∈ Token.settle own.tokens) ∧
        body = part.program.map (Instr.shift raw.start) ∧
        ctx.resolve target = some (.lambda l) ∧
        (s.host.answer l (some raw.toString) p.host).1 = raw.toString ∧
        Echoes raw.start raw.toString t.source
          (Render.runInstr s (Render.nestedAt s 1) t ctx (.block .upright target raw body) p)
          (Render.runAll s (Render.nestedAt s 1) t ctx body
            (p.afterEcho s.host l raw.toString)) := by
  intro source target raw body tokens s l ctx p
  let sect : Node := .block .upright ⟨4, ['s']⟩ ⟨1, ['{', '{', '#', 's', '}', '}']⟩
    ⟨13, ['{', '{', '/', 's', '}', '}']⟩
    [.text ⟨7, ['b']⟩, .interpolation .escaped ⟨10, ['x']⟩ ⟨8, ['{', '{', 'x', '}', '}']⟩]
  let nodes : List Node := [.text ⟨0, ['a']⟩, sect, .text ⟨19, ['c']⟩]
  have hstream : Token.ofSource .standard source.toList = .ok ⟨tokens, .standard⟩ := by
    decide +kernel
  have hsettle : Token.settle tokens = tokens := by decide +kernel
  have hnested : Node.ofTokens (Token.settle tokens) = .ok nodes := by
    rw [hsettle]
    rfl
  let t : Template := ⟨source, .standard, Instr.ofNodes source.toList nodes⟩
  have ht : compile .standard source = .ok t :=
    compile_of_ofTokens hstream hnested
  have hcut : Fragment.between source.toList 7 13 = raw := by decide +kernel
  have hblock : Instr.ofNode source.toList sect = .block .upright target raw body := by
    rw [← hcut]
    rfl
  have hwithin : (Instr.block .upright target raw body).Within t.program := by
    rw [← hblock]
    exact .here (List.mem_cons_of_mem _ List.mem_cons_self)
  have hdelimiters : Token.KeepsDelimiters tokens raw.start := by
    intro u hu _
    revert u
    decide
  have htext : Token.KeepsText tokens raw := by
    intro u hu _ _
    rw [hsettle]
    exact hu
  have hindents : Token.KeepsIndents tokens raw := by
    intro u hu _
    rw [hsettle] at hu
    exact Token.unindented_of_ofSource hstream u hu
  obtain ⟨⟨sec, -, -, hraw, -, -, hstands⟩, hrest⟩ :=
    section_of_compile (σ := Unit) .standard source t ⟨tokens, .standard⟩ .upright target raw body
      ht hstream hwithin
  obtain ⟨part, own, hpart, hown, hkept⟩ := hrest hdelimiters
  have howntext : ∀ u ∈ own.tokens, u.kind = .text → u ∈ Token.settle own.tokens := by
    have hsame : Token.ofSource .standard raw.text = .ok ⟨[⟨.text, ⟨0, ['b']⟩, true⟩,
        ⟨.interpolation .escaped ⟨3, ['x']⟩, ⟨1, ['{', '{', 'x', '}', '}']⟩, false⟩],
        .standard⟩ := by
      decide +kernel
    obtain rfl := Except.ok.inj (hown.symm.trans hsame)
    decide
  obtain ⟨hbody, hechoes⟩ := hkept htext hindents howntext
  refine ⟨t, ht, hstream, hwithin, hdelimiters, htext, hindents, ⟨sec, hraw, hstands⟩, part, own,
    hpart, hown, howntext, hbody, ?_, ?_, ?_⟩
  · rfl
  · rfl
  · exact hechoes s 1 ctx l p rfl rfl rfl rfl

end Mustache
