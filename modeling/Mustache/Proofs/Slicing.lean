import Mustache.Error.Diagram
import Mustache.Html
import Mustache.Proofs.Indentation
import Mustache.Proofs.Scanning
import Mustache.Proofs.SectionText

/-!
# Slices of templates and of reports

Texts are cut out of a source by spans, and such a cut is defined only between two
boundaries of this very source.  A program is sound if each of its spans cuts its own text
out of the source of its template, and a finding is sound if its span can be cut out of
the source that it shows.  Compiling leads to sound programs and sound findings only, and
of a sound finding a diagram can be drawn.

Main results:

- Theorem `Template.sound_of_compile`: a compiled template is sound.
- Theorem `Error.sound_of_compile`: the error of a source that does not compile is sound.
- Theorem `Diagram.picture?_eq`: all that a diagram of a sound finding shows can be cut out.
- Theorem `Template.cutsDefined`: all that is cut out of a source while it is compiled can
  be cut out.
- Theorem `Html.escapeFrom?_eq`: a text can be cut at its reserved characters.
-/

namespace Mustache

open Text

/-! ## Fragments -/

namespace Fragment

/-- The span of the fragment cuts the text of the fragment out of the source. -/
def CutFrom (source : List Char) (f : Fragment) : Prop :=
  cut? f.span.start f.span.stop source = some f.text

variable {source : List Char} {f g : Fragment}

theorem cutFrom_iff : f.CutFrom source ↔ f.StandsIn source :=
  standsIn_iff_cut?.symm

/-- Two fragments in a row stand where the first one begins. -/
theorem StandsIn.append (hf : f.StandsIn source) (hg : g.StandsIn source)
    (h : f.stop = g.start) : (f.append g).StandsIn source := by
  obtain ⟨before, after, hsource, hstart⟩ := hf
  obtain ⟨before', after', hsource', hstart'⟩ := hg
  have hlength : byteLength (before ++ f.text) = byteLength before' := by
    rw [byteLength_append, ← hstart, ← hstart', ← h, stop]
  rw [← List.append_assoc] at hsource
  have hsplit := hsource.symm.trans hsource'
  have hbefore := append_inj_of_byteLength hsplit hlength
  rw [← hbefore, List.append_cancel_left_eq] at hsplit
  refine ⟨before, after', ?_, hstart⟩
  rw [hsource, hsplit]
  simp [Fragment.append]

/-- The first piece of a text begins where the text does. -/
theorem start_of_split_eq_cons {separator : Char} {start : Nat} {cs : List Char}
    {fs : List Fragment} (h : split separator start cs = f :: fs) : f.start = start := by
  cases cs with
  | nil =>
    cases h
    rfl
  | cons c cs =>
    rw [split] at h
    split at h
    · cases h
      rfl
    · split at h
      · cases h
        rfl
      · cases h
        rfl

/-- The pieces of a text stand where the text stands. -/
theorem standsIn_split (separator : Char) (before cs after : List Char) :
    ∀ f ∈ split separator (byteLength before) cs, f.StandsIn (before ++ (cs ++ after)) := by
  induction cs generalizing before with
  | nil =>
    intro f hf
    obtain rfl := List.mem_singleton.1 hf
    exact ⟨before, after, rfl, rfl⟩
  | cons c cs ih =>
    have hrest := ih (before ++ [c])
    have hlength : byteLength (before ++ [c]) = byteLength before + c.utf8Size := by simp
    rw [hlength, List.append_assoc, List.singleton_append, ← List.cons_append] at hrest
    intro f hf
    rw [split] at hf
    split at hf
    · rcases List.mem_cons.1 hf with rfl | hf
      · exact ⟨before, c :: cs ++ after, rfl, rfl⟩
      · exact hrest f hf
    · split at hf
      · rename_i hnone
        exact absurd hnone (split_ne_nil _ _ _)
      · rename_i first others hsplit
        rw [hsplit] at hrest
        rcases List.mem_cons.1 hf with rfl | hf
        · have hfirst := hrest first List.mem_cons_self
          have hc : (⟨byteLength before, [c]⟩ : Fragment).StandsIn
              (before ++ (c :: cs ++ after)) := ⟨before, cs ++ after, rfl, rfl⟩
          refine hc.append hfirst ?_
          rw [start_of_split_eq_cons hsplit]
          simp [stop]
        · exact hrest f (List.mem_cons_of_mem _ hf)

/-- The pieces of a fragment stand in the source of the fragment. -/
theorem StandsIn.split (h : f.StandsIn source) (separator : Char) :
    ∀ g ∈ Fragment.split separator f.start f.text, g.StandsIn source := by
  obtain ⟨before, after, rfl, hstart⟩ := h
  rw [hstart]
  exact standsIn_split separator before f.text after

/-- A fragment of a source ends within it. -/
theorem StandsIn.stop_le (h : f.StandsIn source) : f.stop ≤ byteLength source := by
  obtain ⟨before, after, rfl, hstart⟩ := h
  simp only [stop, hstart, byteLength_append]
  omega

/-- The fragment stands in the source, and does not begin at its end. -/
structure BeginsIn (source : List Char) (f : Fragment) : Prop where
  standsIn : f.StandsIn source
  start_lt : f.start < byteLength source

/-- A fragment that is not empty does not begin at the end of its source. -/
theorem StandsIn.beginsIn (h : f.StandsIn source) (hne : f.text ≠ []) : f.BeginsIn source := by
  refine ⟨h, Nat.lt_of_lt_of_le ?_ h.stop_le⟩
  exact Nat.lt_add_of_pos_right (byteLength_pos hne)

end Fragment

/-! ## Programs -/

/-- The name and the segments of its path are cut out of the source. -/
def Reference.CutFrom (source : List Char) (r : Reference) : Prop :=
  r.name.CutFrom source ∧ ∀ segment ∈ r.path, segment.CutFrom source

/-- A name that stands in a source has segments that stand there. -/
theorem Reference.cutFrom_ofName {source : List Char} {name : Fragment}
    (h : name.StandsIn source) : (ofName name).CutFrom source := by
  refine ⟨Fragment.cutFrom_iff.2 h, ?_⟩
  intro segment hsegment
  rw [Fragment.cutFrom_iff]
  unfold ofName at hsegment
  dsimp only at hsegment
  split at hsegment
  · cases hsegment
  · exact h.split '.' segment hsegment

namespace Instr

mutual

/-- All that the instruction reads is cut out of the source: its text, its name and the segments of
its path, and the raw text and the body of a section. -/
def CutFrom (source : List Char) : Instr → Prop
  | .text whole => whole.CutFrom source
  | .interpolation _ target => target.CutFrom source
  | .block _ target raw body =>
    target.CutFrom source ∧ raw.CutFrom source ∧ CutFromAll source body
  | .inclusion _ _ => True

/-- All that the instructions read is cut out of the source. -/
def CutFromAll (source : List Char) : List Instr → Prop
  | [] => True
  | i :: is => i.CutFrom source ∧ CutFromAll source is

end

variable {source : List Char}

theorem cutFromAll_iff {is : List Instr} :
    CutFromAll source is ↔ ∀ i ∈ is, i.CutFrom source := by
  induction is with
  | nil => simp [CutFromAll]
  | cons i is ih => simp [CutFromAll, ih]

/-- Joining text that touches joins what is cut out. -/
theorem cutFromAll_cons {i : Instr} {is : List Instr} (hi : i.CutFrom source)
    (his : CutFromAll source is) : CutFromAll source (cons i is) := by
  unfold cons
  split
  · rename_i f g rest
    obtain ⟨hg, hrest⟩ := his
    split
    · rename_i htouch
      refine ⟨?_, hrest⟩
      rw [CutFrom, Fragment.cutFrom_iff] at hi hg ⊢
      exact hi.append hg htouch
    · exact ⟨hi, hg, hrest⟩
  · exact ⟨hi, his⟩

/-- What stands between the tags of a section stands in the source. -/
def SectionCut (source : List Char) : Node → Prop
  | .block _ _ opening closing _ =>
    (Fragment.between source opening.stop closing.start).StandsIn source
  | _ => True

mutual

/-- An instruction reads what its node covers. -/
theorem cutFrom_ofNode : ∀ {n : Node}, (∀ f ∈ n.fragments, f.StandsIn source) →
    Node.Everywhere (SectionCut source) [n] → (ofNode source n).CutFrom source
  | .text _, hstands, _ => Fragment.cutFrom_iff.2 (hstands _ List.mem_cons_self)
  | .interpolation _ _ _, hstands, _ =>
    Reference.cutFrom_ofName (hstands _ List.mem_cons_self)
  | .block _ _ _ _ _, hstands, hsections => by
    refine ⟨Reference.cutFrom_ofName (hstands _ List.mem_cons_self), ?_, ?_⟩
    · exact Fragment.cutFrom_iff.2 hsections.self
    · exact cutFromAll_ofNodes (fun f hf => hstands f (by simp [Node.fragments, hf]))
        hsections.body
  | .inclusion _ _ _, _, _ => trivial

/-- Instructions read what their nodes cover. -/
theorem cutFromAll_ofNodes : ∀ {ns : List Node}, (∀ f ∈ Node.fragmentsAll ns, f.StandsIn source) →
    Node.Everywhere (SectionCut source) ns → CutFromAll source (ofNodes source ns)
  | [], _, _ => trivial
  | _ :: _, hstands, hsections => by
    refine cutFromAll_cons ?_ ?_
    · exact cutFrom_ofNode (fun f hf => hstands f (List.mem_append_left _ hf)) hsections.head
    · exact cutFromAll_ofNodes (fun f hf => hstands f (List.mem_append_right _ hf)) hsections.tail

end

end Instr

/-! ## Flaws -/

/-- The characters at which reading has come to its end. -/
def Ending.chars : Ending → List Char
  | .finished _ => []
  | .unclosed pair _ => pair.left.chars
  | .badMarkers pair body => (Lexeme.tag pair .equals body).chars

namespace Step

variable {pair : Delimiters} {ending : Ending}

/-- A tag that cannot be read begins with the characters of its ending. -/
theorem prefix_of_readTag_eq_ended {sigil : Sigil} {inner : List Char}
    (h : readTag pair sigil inner = .ended ending) :
    ending.chars <+: pair.left.chars ++ (sigil.mark ++ inner) := by
  unfold readTag at h
  split at h
  · cases h
    exact List.prefix_append _ _
  · rename_i body rest hfound
    split at h
    · rename_i hequals
      split at h
      · cases h
        rw [hequals] at hfound ⊢
        rw [breakOn_eq_some hfound]
        refine ⟨rest, ?_⟩
        simp [Ending.chars, Lexeme.chars]
      · cases h
    · cases h

/-- Where a step comes to an ending, its characters stand. -/
theorem prefix_of_read_eq_ended {cs : List Char} (h : read pair cs = .ended ending) :
    ending.chars <+: cs := by
  cases cs with
  | nil =>
    cases h
    exact List.nil_prefix
  | cons c cs =>
    rw [read] at h
    split at h
    · rename_i hleft
      obtain ⟨inner, hinner⟩ := List.isPrefixOf_iff_prefix.1 hleft
      rw [← hinner, List.drop_left] at h
      rw [← hinner, ← Sigil.mark_append_of_read inner]
      exact prefix_of_readTag_eq_ended h
    · cases h

end Step

/-- What was read and the characters at which reading has come to its end begin a source. -/
theorem Scan.prefix_of_read (pair : Delimiters) (cs : List Char) :
    (read pair cs).lexemes.flatMap Lexeme.chars ++ (read pair cs).ending.chars <+: cs := by
  fun_induction read pair cs with
  | case1 pair cs ending hstep => exact Step.prefix_of_read_eq_ended hstep
  | case2 pair cs l live rest hstep ih =>
    rw [(Step.append_of_read_eq_lexeme hstep).1, cons, List.flatMap_cons, List.append_assoc]
    exact List.prefix_append_right_inj l.chars |>.2 ih

/-- An ending that is a flaw has characters. -/
theorem Ending.chars_ne_nil {ending : Ending} (h : ∀ live, ending ≠ .finished live) :
    ending.chars ≠ [] := by
  cases ending with
  | finished live => exact absurd rfl (h live)
  | unclosed pair sigil => exact pair.left.usable.1
  | badMarkers pair body => simp [chars, Lexeme.chars, pair.left.usable.1]

/-- A flaw in the tags of a source has its place in the source. -/
theorem Token.exists_fragment_of_ofSource_error {pair : Delimiters} {source : List Char}
    {flaw : Flaw} (h : ofSource pair source = .error flaw) :
    ∃ f : Fragment, f.BeginsIn source ∧ flaw.span = f.span := by
  obtain ⟨after, hsource⟩ := Scan.prefix_of_read pair source
  rw [ofSource, ofScan] at h
  obtain ⟨hflaw, hspan⟩ : (∀ live, (Scan.read pair source).ending ≠ .finished live) ∧
      flaw.span = Fragment.span
        ⟨byteLength ((Scan.read pair source).lexemes.flatMap Lexeme.chars),
          (Scan.read pair source).ending.chars⟩ := by
    cases hending : (Scan.read pair source).ending with
    | finished live =>
      rw [hending] at h
      cases h
    | unclosed | badMarkers =>
      rw [hending] at h
      cases h
      refine ⟨?_, rfl⟩
      intro live hfinished
      cases hfinished
  rw [List.append_assoc] at hsource
  have hstands : Fragment.StandsIn source ⟨_, (Scan.read pair source).ending.chars⟩ :=
    ⟨_, after, hsource.symm, rfl⟩
  exact ⟨_, hstands.beginsIn (Ending.chars_ne_nil hflaw), hspan⟩

namespace Nesting

variable {n : Nesting} {flaw : Flaw}

/-- A token that does not fit is the place of the flaw. -/
theorem span_of_step_error {t : Token} (h : n.step t = .error flaw) :
    flaw.span = t.whole.span := by
  unfold step at h
  split at h
  · cases h
  · cases h
  · cases h
  · cases h
  · cases h
  · cases h
  · unfold close at h
    split at h
    · cases h
      rfl
    · split at h
      · cases h
      · cases h
        rfl

theorem exists_of_run_error {ts : List Token} (h : n.run ts = .error flaw) :
    ∃ t ∈ ts, flaw.span = t.whole.span := by
  induction ts generalizing n with
  | nil => cases h
  | cons t ts ih =>
    rw [run] at h
    cases hstep : n.step t with
    | error flaw' =>
      rw [hstep] at h
      cases h
      exact ⟨t, List.mem_cons_self, span_of_step_error hstep⟩
    | ok next =>
      rw [hstep] at h
      obtain ⟨u, hu, hspan⟩ := ih h
      exact ⟨u, List.mem_cons_of_mem _ hu, hspan⟩

end Nesting

/-- A flaw in the nesting of tokens has its place at one of them. -/
theorem Node.exists_token_of_ofTokens_error {tokens : List Token} {flaw : Flaw}
    (h : ofTokens tokens = .error flaw) : ∃ t ∈ tokens, flaw.span = t.whole.span := by
  unfold ofTokens at h
  cases hrun : Nesting.empty.run tokens with
  | error flaw' =>
    rw [hrun] at h
    cases h
    exact Nesting.exists_of_run_error hrun
  | ok last =>
    rw [hrun] at h
    replace h : last.finish = .error flaw := h
    have hlast : LeadsTo tokens last := LeadsTo.run (.outermost .nil) hrun
    cases hlast with
    | outermost _ => cases h
    | @opened before inner o ns n polarity name _ _ _ =>
      cases h
      exact ⟨o, by simp, rfl⟩

/-- A flaw of a source has its place in the source. -/
theorem Template.exists_fragment_of_tree_error {pair : Delimiters} {source : List Char}
    {flaw : Flaw} (h : tree pair source = .error flaw) :
    ∃ f : Fragment, f.BeginsIn source ∧ flaw.span = f.span := by
  unfold tree at h
  cases hstream : Token.ofSource pair source with
  | error flaw' =>
    rw [hstream] at h
    cases h
    exact Token.exists_fragment_of_ofSource_error hstream
  | ok stream =>
    rw [hstream] at h
    replace h : (Node.ofTokens (Token.settle stream.tokens)).map
      (fun nodes => (nodes, stream.live)) = .error flaw := h
    cases hnodes : Node.ofTokens (Token.settle stream.tokens) with
    | ok nodes =>
      rw [hnodes] at h
      cases h
    | error flaw' =>
      rw [hnodes] at h
      cases h
      obtain ⟨u, hu, hspan⟩ := Node.exists_token_of_ofTokens_error hnodes
      obtain ⟨t, ht, hwhole⟩ :=
        (Token.settlesTo_settle (Token.unindented_of_ofSource hstream)).exists_whole_eq hu
      obtain ⟨l, hne, -, htext⟩ := Token.exists_lexeme_of_ofSource hstream ht
      have hstands := Token.standsIn_of_ofSource hstream t ht t.whole List.mem_cons_self
      rw [← hwhole] at hspan
      exact ⟨t.whole, hstands.beginsIn (htext ▸ hne), hspan⟩

/-! ## What compiling leads to -/

/-- All that the program reads is cut out of the source of the template. -/
def Template.Sound (t : Template) : Prop :=
  Instr.CutFromAll t.source.toList t.program

/-- The span of the finding can be cut out of its source. -/
def Finding.Sound (finding : Finding) : Prop :=
  ∃ piece, cut? finding.flaw.span.start finding.flaw.span.stop finding.source.toList = some piece

/-- If the error has a place, it can be cut out. -/
def Error.Sound : Error → Prop
  | .flawed finding => finding.Sound
  | _ => True

theorem Finding.sound_of_standsIn {finding : Finding} {f : Fragment}
    (hf : f.StandsIn finding.source.toList) (hspan : finding.flaw.span = f.span) :
    finding.Sound :=
  ⟨f.text, by rw [hspan]; exact Fragment.standsIn_iff_cut?.1 hf⟩

/-- A compiled template is sound. -/
theorem Template.sound_of_compile {pair : Delimiters} {source : String} {t : Template}
    (h : compile pair source = .ok t) : t.Sound := by
  obtain ⟨stream, nodes, hfrom⟩ := compile_eq_ok_iff.1 h
  have hgrows := Node.ofTokens_eq_ok_iff.1 hfrom.nested
  have hstands : ∀ f ∈ Node.fragmentsAll nodes, f.StandsIn source.toList := by
    intro f hf
    have hsettled := Node.fragmentsAll_subset_of_ofTokens hfrom.nested hf
    obtain ⟨u, hu, hfu⟩ := List.mem_flatMap.1 (Token.fragments_settle_subset _ hsettled)
    exact Token.standsIn_of_ofSource hfrom.tokens u hu f hfu
  rw [hfrom.template]
  refine Instr.cutFromAll_ofNodes hstands ?_
  intro n hn
  cases n with
  | block polarity name opening closing body =>
    obtain ⟨sec, -, -, rfl, rfl, -, -⟩ :=
      Token.SectionTokens.exists_of_grows hfrom.tokens hgrows hn
    obtain ⟨hraw, hbetween⟩ := sec.between_eq_raw hfrom.tokens
    show (Fragment.between source.toList _ _).StandsIn source.toList
    rwa [hbetween]
  | _ => trivial

/-- The error of a source that does not compile is sound. -/
theorem Error.sound_of_compile {pair : Delimiters} {source : String} {e : Error}
    (h : Template.compile pair source = .error e) : e.Sound := by
  unfold Template.compile at h
  split at h
  · cases h
  · rename_i flaw htree
    cases h
    obtain ⟨f, hf, hspan⟩ := Template.exists_fragment_of_tree_error htree
    exact Finding.sound_of_standsIn hf.standsIn hspan

/-! ## Diagrams -/

namespace Diagram

section

-- The columns that a text has.
variable (columns : List Char → Nat)

/-- The line of an offset and its column, for which the line is cut at the offset. -/
def cutPosition? (offset : Nat) : List (List Char) → Option (Option (Nat × Nat))
  | [] => some none
  | line :: rest =>
    if offset < byteLength line + 1 then
      (cut? 0 offset line).map fun before => some (0, columns before)
    else
      (cutPosition? (offset - (byteLength line + 1)) rest).map fun found =>
        found.map fun inner => (inner.1 + 1, inner.2)

/-- The picture of a finding, for which its line and its source are cut at the place of the flaw. -/
def picture? (finding : Finding) : Option Picture :=
  let source := finding.source.toList
  let span := finding.flaw.span
  let ls := lines source
  (cutPosition? columns span.start ls).bind fun found =>
    (cut? span.start (min span.stop (byteLength source)) source).map fun marked =>
      let here := found.getD (ls.length - 1, columns (ls.getLastD []))
      { inPartial := finding.inPartial
        number := here.1 + 1
        line := ls[here.1]?.getD (ls.getLastD [])
        column := here.2
        carets := max 1 (columns marked)
        message := finding.flaw.fault.message }

/-- An error with a diagram of its place, for which its source is cut there. -/
def ofError? : Error → Option String
  | .flawed finding => (picture? columns finding).map (drawing columns)
  | e => some e.message

end

/-- A line ends where its newline stands. -/
theorem lines_append_newline {line : List Char} (hline : '\n' ∉ line) (rest : List Char) :
    lines (line ++ '\n' :: rest) = line :: lines rest := by
  induction line with
  | nil => rfl
  | cons c line ih =>
    rw [List.mem_cons, not_or] at hline
    rw [List.cons_append, lines, if_neg (Ne.symm hline.1), ih hline.2]

/-- A text without a newline is one line, unless it is empty. -/
theorem lines_of_newline_not_mem {line : List Char} (hne : line ≠ []) (hline : '\n' ∉ line) :
    lines line = [line] := by
  induction line with
  | nil => exact absurd rfl hne
  | cons c line ih =>
    rw [List.mem_cons, not_or] at hline
    rw [lines, if_neg (Ne.symm hline.1)]
    by_cases hempty : line = []
    · rw [hempty, lines]
    · rw [ih hempty hline.2]

variable {columns : List Char → Nat}

/-- At a boundary, the line can be cut. -/
theorem cutPosition?_lines {source : List Char} {offset : Nat} (h : IsBoundary source offset) :
    cutPosition? columns offset (lines source) =
      some (position? columns offset (lines source)) := by
  induction hlength : source.length using Nat.strongRecOn generalizing source offset with
  | ind n ih =>
    by_cases hnewline : '\n' ∈ source
    · obtain ⟨line, rest, rfl, hline⟩ := List.eq_append_cons_of_mem hnewline
      rw [lines_append_newline hline, cutPosition?, position?]
      by_cases hhere : offset < byteLength line + 1
      · have hcut := cut?_zero (h.left_of_append (Nat.le_of_lt_succ hhere))
        rw [if_pos hhere, if_pos hhere, hcut]
        rfl
      · have hone : ('\n').utf8Size = 1 := rfl
        have hbehind : byteLength (line ++ ['\n']) = byteLength line + 1 := by simp [hone]
        rw [← List.singleton_append, ← List.append_assoc] at h
        have hrest := h.right_of_append (by omega)
        rw [hbehind] at hrest
        have hshorter : rest.length < n := by
          rw [← hlength]
          simp only [List.length_append, List.length_cons]
          omega
        rw [if_neg hhere, if_neg hhere, ih rest.length hshorter hrest rfl]
        rfl
    · by_cases hempty : source = []
      · subst hempty
        rfl
      · have hhere : offset < byteLength source + 1 := Nat.lt_succ_of_le h.le_byteLength
        rw [lines_of_newline_not_mem hempty hnewline, cutPosition?, position?, if_pos hhere,
          if_pos hhere, cut?_zero h]
        rfl

/-- All that the diagram of a sound finding shows can be cut out. -/
theorem picture?_eq {finding : Finding} (h : finding.Sound) :
    picture? columns finding = some (picture columns finding) := by
  obtain ⟨piece, hpiece⟩ := h
  obtain ⟨hstart, hstop⟩ := isBoundary_of_cut?_eq_some hpiece
  have hmarked : slice finding.flaw.span.start finding.flaw.span.stop finding.source.toList =
      piece := by
    obtain ⟨before, after, hsource, hbefore, hpieceStop⟩ := cut?_eq_some_iff.1 hpiece
    rw [hsource, hbefore, hpieceStop, byteLength_append, slice_append]
  unfold picture? picture position
  dsimp only
  rw [cutPosition?_lines hstart, Nat.min_eq_left hstop.le_byteLength, hpiece, hmarked]
  rfl

end Diagram

/-- The error with a diagram of its place, for which its source is cut there. -/
def Error.pretty? (e : Error) : Option String :=
  Diagram.ofError? width e

/-- A sound error can be shown with a diagram. -/
theorem Error.pretty?_eq {e : Error} (h : e.Sound) : e.pretty? = some e.pretty := by
  cases e with
  | flawed finding =>
    rw [pretty?, Diagram.ofError?, Diagram.picture?_eq h]
    rfl
  | _ => rfl

/-! ## Compiling a source -/

/-- All that is cut out of a source while it is compiled can be cut out. -/
structure Template.CutsDefined (pair : Delimiters) (source : String) : Prop where
  /-- The scanner finds the tokens of the source or its flaw, without a cut that is not defined. -/
  scanned : Scanner.tokenize pair source.toList = some (Token.ofSource pair source.toList)
  /-- The scanner stays within the source. -/
  within : ∀ st, Scanner.Reaches pair source.toList st → st.pos ≤ byteLength source.toList
  /-- What a token covers and its name are cut out of the source, before and after lines are
  settled. -/
  tokens : ∀ stream, Token.ofSource pair source.toList = .ok stream →
    ∀ t ∈ stream.tokens ++ Token.settle stream.tokens, ∀ f ∈ t.fragments, f.CutFrom source.toList
  /-- So are the fragments of the tree. -/
  nodes : ∀ ns live, tree pair source.toList = .ok (ns, live) →
    ∀ f ∈ Node.fragmentsAll ns, f.CutFrom source.toList
  /-- So is all that the program reads. -/
  program : ∀ t, compile pair source = .ok t → t.source = source ∧ t.Sound
  /-- A flaw can be shown in the source. -/
  failure : ∀ e, compile pair source = .error e → e.Sound ∧ e.pretty? = some e.pretty

/-- Every source can be compiled by cuts that are defined. -/
theorem Template.cutsDefined (pair : Delimiters) (source : String) : CutsDefined pair source where
  scanned := Scanner.tokenize_eq pair source.toList
  within _ hreaches := hreaches.pos_le
  tokens stream hstream t ht f hf := by
    rw [Fragment.cutFrom_iff]
    rcases List.mem_append.1 ht with ht | ht
    · exact Token.standsIn_of_ofSource hstream t ht f hf
    · have hsettled := Token.fragments_settle_subset _ (List.mem_flatMap.2 ⟨t, ht, hf⟩)
      obtain ⟨u, hu, hfu⟩ := List.mem_flatMap.1 hsettled
      exact Token.standsIn_of_ofSource hstream u hu f hfu
  nodes _ _ htree f hf := Fragment.cutFrom_iff.2 (standsIn_of_tree htree f hf)
  program _ hcompile := ⟨source_of_compile hcompile, sound_of_compile hcompile⟩
  failure _ hcompile :=
    ⟨Error.sound_of_compile hcompile, Error.pretty?_eq (Error.sound_of_compile hcompile)⟩

/-! ## Escaping -/

namespace Html

/-- The pieces of a text that is cut at its reserved characters.  The last piece so far ends at one
offset, and the characters that are left begin at another. -/
def escapeFrom? (text : List Char) (last here : Nat) : List Char → Option (List (List Char))
  | [] => (cut? last (byteLength text) text).map fun run => [run]
  | c :: cs =>
    match entity? c with
    | none => escapeFrom? text last (here + c.utf8Size) cs
    | some entity =>
      (cut? last here text).bind fun run =>
        (escapeFrom? text (here + 1) (here + c.utf8Size) cs).map fun pieces =>
          run :: entity :: pieces

/-- Reserved characters have one byte. -/
theorem utf8Size_of_entity? {c : Char} {entity : List Char} (h : entity? c = some entity) :
    c.utf8Size = 1 := by
  unfold entity? at h
  split at h
  · rfl
  · rfl
  · rfl
  · rfl
  · rfl
  · cases h

theorem escapePieces_ne_nil (cs : List Char) : escapePieces cs ≠ [] := by
  cases cs with
  | nil => simp [escapePieces]
  | cons c cs =>
    rw [escapePieces]
    split
    · simp
    · split <;> simp

/-- Behind some text that has been cut, and a run that has not, the pieces begin with the run. -/
theorem escapeFrom?_append (done run cs : List Char) :
    escapeFrom? (done ++ (run ++ cs)) (byteLength done) (byteLength (done ++ run)) cs =
      some (onFirstLine run (escapePieces cs)) := by
  induction cs generalizing done run with
  | nil =>
    rw [escapeFrom?, List.append_nil, cut?_eq_some_iff.2 ⟨done, [], by simp, rfl, rfl⟩]
    simp [escapePieces, onFirstLine]
  | cons c cs ih =>
    have hnext : byteLength (done ++ run) + c.utf8Size = byteLength (done ++ (run ++ [c])) := by
      simp [Nat.add_assoc]
    rw [escapeFrom?, escapePieces]
    cases hentity : entity? c with
    | none =>
      have hlonger := ih done (run ++ [c])
      rw [List.append_assoc, List.singleton_append] at hlonger
      dsimp only
      rw [hnext, hlonger]
      cases hpieces : escapePieces cs with
      | nil => exact absurd hpieces (escapePieces_ne_nil cs)
      | cons first rest => simp [onFirstLine]
    | some entity =>
      have hcut : cut? (byteLength done) (byteLength (done ++ run)) (done ++ (run ++ c :: cs)) =
          some run :=
        cut?_eq_some_iff.2 ⟨done, c :: cs, rfl, rfl, rfl⟩
      have hrest := ih (done ++ (run ++ [c])) []
      have htext : done ++ (run ++ [c]) ++ ([] ++ cs) = done ++ (run ++ c :: cs) := by simp
      rw [htext, List.append_nil, ← hnext] at hrest
      dsimp only
      rw [hcut, ← utf8Size_of_entity? hentity, Option.bind_some, hrest]
      cases hpieces : escapePieces cs with
      | nil => exact absurd hpieces (escapePieces_ne_nil cs)
      | cons first rest => simp [onFirstLine]

/-- A text can be cut at its reserved characters. -/
theorem escapeFrom?_eq (text : List Char) :
    escapeFrom? text 0 0 text = some (escapePieces text) := by
  have hall := escapeFrom?_append [] [] text
  cases hpieces : escapePieces text with
  | nil => exact absurd hpieces (escapePieces_ne_nil text)
  | cons first rest => simpa [hpieces, onFirstLine] using hall

end Html

end Mustache
