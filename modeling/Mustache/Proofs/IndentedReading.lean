import Mustache.Proofs.Indentation
import Mustache.Proofs.Outline
import Mustache.Proofs.Tiling

/-!
# Reading an indented source

The indent stands in front of every line, so it also stands inside the tags that go
over several lines, and in front of the tags that begin a line.  Reading the indented
source keeps step with reading the source: a text at the beginning of a line has the
indent in front of it, a tag there has a text of its own in front of it, and in every
tag the indent stands behind the newlines.

Main results:

- Theorem `Step.read_indentFrom`: one step, where no line begins.
- Theorem `Scan.read_indentFrom`: the lexemes of an indented source, and its ending.
- Theorem `Token.exists_ofSource_indentLines`: its tokens.
-/

namespace Mustache

open Text Template

/-! ## What is read of an indented source -/

/-- The ending with the indent in what it reports. -/
def Ending.indented (w : List Char) : Ending → Ending
  | finished live => finished live
  | unclosed pair sigil => unclosed pair sigil
  | badMarkers pair body => badMarkers pair (afterNewlines w body)

namespace Lexeme

/-- The lexeme with the indent behind the newlines of its body. -/
def indented (w : List Char) : Lexeme → Lexeme
  | text chars => text chars
  | tag pair sigil body => tag pair sigil (afterNewlines w body)

/-- Whether the lexeme ends a line. -/
def endsLine (l : Lexeme) : Bool :=
  l.chars.getLast? == some '\n'

/-- The lexeme behind the indent of its line, if it begins one. -/
def behindIndent (w : List Char) (beginsLine : Bool) : Lexeme → List Lexeme
  | text chars => [text (lead w beginsLine ++ chars)]
  | tag pair sigil body =>
    (if beginsLine then [text w] else []) ++ [tag pair sigil (afterNewlines w body)]

/-- A tag does not end a line. -/
@[simp]
theorem endsLine_tag (pair : Delimiters) (sigil : Sigil) (body : List Char) :
    (tag pair sigil body).endsLine = false := by
  obtain ⟨x, hx⟩ := Token.exists_terminator_eq sigil pair
  have hlast : (tag pair sigil body).chars.getLast? = pair.right.chars.getLast? := by
    have hne := pair.right.usable.1
    rw [chars, hx]
    simp only [← List.append_assoc]
    exact List.getLast?_append_of_ne_nil _ hne
  have hsolid := pair.right.isSolid
  by_contra hends
  rw [endsLine, hlast] at hends
  refine hsolid.newline_not_mem (List.mem_of_getLast? ?_)
  simpa using hends

end Lexeme

/-- The step with the indent in front of the lines that begin in the rest. -/
def Step.indented (w : List Char) : Step → Step
  | ended ending => ended (ending.indented w)
  | lexeme l live rest => lexeme (l.indented w) live (indentFrom w l.endsLine rest)

/-! ## Steps -/

namespace Step

variable {w : List Char}

/-- A run of text is the same, and the indent stands behind it if it ends a line. -/
theorem textRun_indentFrom (w : List Char) (m : Marker) (cs : List Char) :
    textRun m.chars (indentFrom w false cs) =
      ((textRun m.chars cs).1,
        indentFrom w ((textRun m.chars cs).1.getLast? == some '\n') (textRun m.chars cs).2) := by
  induction cs with
  | nil => rfl
  | cons c cs ih =>
    have hprefix := isPrefixOf_indentFrom w m.isSolid.solid (c :: cs)
    rw [indentFrom_cons, lead_false, List.nil_append] at hprefix ⊢
    rw [textRun, textRun, hprefix]
    by_cases hc : c = '\n'
    · simp [hc]
    · have hflag : (c == '\n') = false := by simp [hc]
      rw [if_neg hc, if_neg hc, hflag]
      split
      · simp [indentFrom_cons, hflag]
      · rw [ih]
        have hlast : ((c :: (textRun m.chars cs).1).getLast? == some '\n') =
            ((textRun m.chars cs).1.getLast? == some '\n') := by
          rw [List.getLast?_cons]
          cases (textRun m.chars cs).1.getLast? with
          | none => simp [hc]
          | some d => rfl
        rw [hlast]

/-- An indent in front of a text joins its first run. -/
theorem textRun_append_of_isIndent (hw : IsIndent w) (m : Marker) (cs : List Char) :
    textRun m.chars (w ++ cs) = (w ++ (textRun m.chars cs).1, (textRun m.chars cs).2) := by
  obtain ⟨d, ds, hchars, hd⟩ := m.exists_cons
  obtain ⟨hblank, hnewline⟩ := hw
  induction w with
  | nil => rfl
  | cons c w ih =>
    have hc : c ≠ '\n' := fun h => hnewline (h ▸ List.mem_cons_self)
    have hno : ¬ m.chars.isPrefixOf (c :: (w ++ cs)) = true := by
      rw [List.isPrefixOf_iff_prefix, hchars]
      intro hprefix
      have hcblank := hblank c List.mem_cons_self
      rw [← (List.cons_prefix_cons.1 hprefix).1, hd] at hcblank
      cases hcblank
    rw [List.cons_append, textRun, if_neg hc, if_neg hno,
      ih (fun e he => hblank e (List.mem_cons_of_mem _ he))
        fun he => hnewline (List.mem_cons_of_mem _ he)]
    rfl

/-- The kind of a tag is the same. -/
theorem sigil_read_indentFrom (w cs : List Char) :
    Sigil.read (indentFrom w false cs) =
      ((Sigil.read cs).1, indentFrom w false (Sigil.read cs).2) := by
  cases cs with
  | nil => rfl
  | cons c cs =>
    rw [indentFrom_cons, lead_false, List.nil_append, Sigil.read, Sigil.read]
    cases hsigil : Sigil.ofChar? c with
    | none => rfl
    | some sigil =>
      have hc : (c == '\n') = false := by
        by_contra hnewline
        have hc : c = '\n' := by simpa using hnewline
        rw [hc] at hsigil
        cases hsigil
      rw [hc]

theorem isSolid_terminator (sigil : Sigil) (pair : Delimiters) :
    IsSolid (sigil.terminator pair) := by
  have hcons : ∀ c, isBlank c = false → IsSolid (c :: pair.right.chars) := by
    intro c hc
    refine ⟨by simp, ?_⟩
    intro d hd
    rcases List.mem_cons.1 hd with rfl | hd
    · exact hc
    · exact pair.right.isSolid.solid d hd
  cases sigil with
  | brace => exact hcons '}' (by decide)
  | equals => exact hcons '=' (by decide)
  | _ => exact pair.right.isSolid

/-- The same tag is read, with the indent behind the newlines of its body. -/
theorem readTag_indentFrom (hw : IsIndent w) (pair : Delimiters) (sigil : Sigil)
    (inner : List Char) :
    readTag pair sigil (indentFrom w false inner) = (readTag pair sigil inner).indented w := by
  rw [readTag, readTag, breakOn_indentFrom hw (isSolid_terminator sigil pair)]
  cases breakOn (sigil.terminator pair) inner with
  | none => rfl
  | some found =>
    obtain ⟨body, rest⟩ := found
    have hbody : Delimiters.ofBody? (afterNewlines w body) = Delimiters.ofBody? body := by
      rw [Delimiters.ofBody?, words_afterNewlines hw.blank]
      rfl
    simp only [Option.map_some, lead_false, List.nil_append]
    by_cases hequals : sigil = .equals
    · rw [if_pos hequals, if_pos hequals, hbody]
      cases Delimiters.ofBody? body with
      | none => rfl
      | some live => simp [indented, Lexeme.indented]
    · rw [if_neg hequals, if_neg hequals]
      simp [indented, Lexeme.indented]

/-- Where no line begins, the same step is made in the indented source. -/
theorem read_indentFrom (hw : IsIndent w) (pair : Delimiters) (cs : List Char) :
    read pair (indentFrom w false cs) = (read pair cs).indented w := by
  cases cs with
  | nil => rfl
  | cons c cs =>
    by_cases hp : pair.left.chars.isPrefixOf (c :: cs) = true
    · obtain ⟨inner, hinner⟩ := List.isPrefixOf_iff_prefix.1 hp
      rw [← hinner, indentFrom_of_newline_not_mem w pair.left.isSolid.newline_not_mem,
        read_left_append, read_left_append, sigil_read_indentFrom]
      exact readTag_indentFrom hw pair _ _
    · have hprefix := isPrefixOf_indentFrom w pair.left.isSolid.solid (c :: cs)
      have hrun := textRun_indentFrom w pair.left (c :: cs)
      rw [indentFrom_cons, lead_false, List.nil_append] at hprefix hrun ⊢
      rw [read, hprefix, hrun, if_neg hp, read, if_neg hp]
      rfl

/-- An indent in front of a text is read with the first run of the text. -/
theorem read_append_of_isIndent (hne : w ≠ []) (hw : IsIndent w) (pair : Delimiters)
    (cs : List Char) :
    read pair (w ++ cs) = .lexeme (.text (w ++ (textRun pair.left.chars cs).1)) pair
      (textRun pair.left.chars cs).2 := by
  obtain ⟨c, w, rfl⟩ := List.exists_cons_of_ne_nil hne
  obtain ⟨d, ds, hchars, hd⟩ := pair.left.exists_cons
  have hno : ¬ pair.left.chars.isPrefixOf (c :: (w ++ cs)) = true := by
    rw [List.isPrefixOf_iff_prefix, hchars]
    intro hprefix
    have hcblank := hw.blank c List.mem_cons_self
    rw [← (List.cons_prefix_cons.1 hprefix).1, hd] at hcblank
    cases hcblank
  have hrun := textRun_append_of_isIndent hw pair.left cs
  rw [List.cons_append] at hrun ⊢
  rw [read, if_neg hno, hrun]

end Step

/-! ## Lexemes -/

namespace Scan

variable {w : List Char}

/-- The lexemes behind the indents of their lines, the first one beginning a line or not. -/
def behindIndents (w : List Char) (beginsLine : Bool) : List Lexeme → List Lexeme
  | [] => []
  | l :: ls => l.behindIndent w beginsLine ++ behindIndents w l.endsLine ls

/-- In front of a tag that begins a line, the indent is a text of its own. -/
theorem read_indentFrom_of_not_text (hne : w ≠ []) (hw : IsIndent w) {pair : Delimiters}
    {cs : List Char} (hcs : cs ≠ [])
    (h : ∀ chars live rest, Step.read pair cs ≠ .lexeme (.text chars) live rest) :
    read pair (indentFrom w true cs) = (read pair (indentFrom w false cs)).cons (.text w) := by
  have hprefix : pair.left.chars <+: cs := by
    obtain ⟨c, cs, rfl⟩ := List.exists_cons_of_ne_nil hcs
    by_contra hno
    rw [← List.isPrefixOf_iff_prefix] at hno
    have hread : Step.read pair (c :: cs) =
        .lexeme (.text (Step.textRun pair.left.chars (c :: cs)).1) pair
          (Step.textRun pair.left.chars (c :: cs)).2 := by
      rw [Step.read, if_neg hno]
    exact h _ _ _ hread
  obtain ⟨inner, rfl⟩ := hprefix
  have hrun := Step.textRun_indentFrom w pair.left (pair.left.chars ++ inner)
  rw [Step.textRun_left_append] at hrun
  have hfirst := Step.read_append_of_isIndent hne hw pair
    (indentFrom w false (pair.left.chars ++ inner))
  rw [hrun] at hfirst
  rw [indentFrom_eq_lead_append w true hcs, lead_true, read_of_lexeme hfirst]
  simp

/-- After what stands at the beginning, reading the indented source goes on in the rest. -/
theorem read_indentFrom_of_lexeme (hne : w ≠ []) (hw : IsIndent w) {pair live : Delimiters}
    {cs rest : List Char} {l : Lexeme} (h : Step.read pair cs = .lexeme l live rest)
    (beginsLine : Bool) :
    read pair (indentFrom w beginsLine cs) =
      (read live (indentFrom w l.endsLine rest)).prepend (l.behindIndent w beginsLine) := by
  have hcs : cs ≠ [] := by
    rintro rfl
    cases h
  have hstep := Step.read_indentFrom hw pair cs
  rw [h] at hstep
  cases beginsLine with
  | false =>
    rw [read_of_lexeme hstep]
    cases l <;> rfl
  | true =>
    rcases Step.cases_of_read_eq_lexeme h with ⟨rfl, rfl, rfl, -⟩ | ⟨sigil, body, rfl, -⟩
    · have hrun := Step.textRun_indentFrom w live.left cs
      have hfirst := Step.read_append_of_isIndent hne hw live (indentFrom w false cs)
      rw [indentFrom_eq_lead_append w true hcs, lead_true, read_of_lexeme hfirst, hrun]
      rfl
    · rw [read_indentFrom_of_not_text hne hw hcs (by simp [h]), read_of_lexeme hstep]
      rfl

/-- Where reading comes to its end, so does reading the indented source. -/
theorem ending_indentFrom_of_ended (hne : w ≠ []) (hw : IsIndent w) {pair : Delimiters}
    {cs : List Char} {ending : Ending} (h : Step.read pair cs = .ended ending)
    (beginsLine : Bool) :
    (read pair (indentFrom w beginsLine cs)).ending = ending.indented w := by
  have hstep := Step.read_indentFrom hw pair cs
  rw [h] at hstep
  have hfalse := read_of_ended hstep
  by_cases hcs : cs = []
  · subst hcs
    rw [indentFrom] at hfalse ⊢
    rw [hfalse]
  · cases beginsLine with
    | false => rw [hfalse]
    | true =>
      rw [read_indentFrom_of_not_text hne hw hcs (by simp [h]), hfalse]
      rfl

/-- The indented source is read to the same ending.  If it is the end of the source, its lexemes are
those of the source behind the indents of their lines. -/
theorem read_indentFrom (hne : w ≠ []) (hw : IsIndent w) (pair : Delimiters) (cs : List Char)
    (beginsLine : Bool) :
    (read pair (indentFrom w beginsLine cs)).ending = (read pair cs).ending.indented w ∧
    ∀ live, (read pair cs).ending = .finished live →
      (read pair (indentFrom w beginsLine cs)).lexemes =
        behindIndents w beginsLine (read pair cs).lexemes := by
  fun_induction read pair cs generalizing beginsLine with
  | case1 pair cs ending hstep =>
    refine ⟨ending_indentFrom_of_ended hne hw hstep beginsLine, ?_⟩
    intro live hfinished
    obtain rfl : ending = .finished live := hfinished
    obtain ⟨rfl, rfl⟩ := Step.eq_nil_of_read_eq_finished hstep
    rw [indentFrom, read_of_ended hstep]
    rfl
  | case2 pair cs l next rest hstep ih =>
    obtain ⟨hending, hlexemes⟩ := ih l.endsLine
    rw [read_indentFrom_of_lexeme hne hw hstep]
    refine ⟨hending, ?_⟩
    intro live hfinished
    exact congrArg (l.behindIndent w beginsLine ++ ·) (hlexemes live hfinished)

end Scan

/-! ## Tokens -/

/-- The kind with a function applied to the text of its name. -/
def TokenKind.rename (f : List Char → List Char) : TokenKind → TokenKind
  | .text => .text
  | .interpolation escaping name => .interpolation escaping ⟨0, f name.text⟩
  | .sectionOpen polarity name => .sectionOpen polarity ⟨0, f name.text⟩
  | .sectionClose name => .sectionClose ⟨0, f name.text⟩
  | .inclusion name indent => .inclusion ⟨0, f name.text⟩ indent
  | .comment => .comment
  | .setDelimiters => .setDelimiters

namespace Token

variable {w : List Char}

/-- The contents of a token, if it is text, or of the indent in front of it and the token. -/
def behindIndent (w : List Char) (t : Token) : List Token :=
  match t.kind with
  | .text => [⟨.text, ⟨0, lead w t.beginsLine ++ t.whole.text⟩, t.beginsLine⟩]
  | kind =>
    (if t.beginsLine then [⟨.text, ⟨0, w⟩, true⟩] else []) ++
      [⟨kind.rename (afterNewlines w), ⟨0, []⟩, false⟩]

theorem behindIndent_of_kind_ne_text {t : Token} (h : t.kind ≠ .text) :
    behindIndent w t = (if t.beginsLine then [⟨.text, ⟨0, w⟩, true⟩] else []) ++
      [⟨t.kind.rename (afterNewlines w), ⟨0, []⟩, false⟩] := by
  unfold behindIndent
  cases hkind : t.kind with
  | text => exact absurd hkind h
  | _ => rfl

/-- The contents of a kind are told by the text of its name. -/
theorem outline_kindOfTag {f : List Char → List Char} {name name' : Fragment}
    (h : name'.text = f name.text) (sigil : Sigil) :
    (kindOfTag sigil name').outline .contents = (kindOfTag sigil name).rename f := by
  cases sigil <;> simp [kindOfTag, TokenKind.outline, TokenKind.rename, Outline.contents, h]

/-- A tag with the indent in its body has the kind of the tag, with the indent in its name. -/
theorem outline_kindOfLexeme_tag (hw : AllBlank w) (pair : Delimiters) (sigil : Sigil)
    (body : List Char) (start start' : Nat) :
    (kindOfLexeme start' (.tag pair sigil (afterNewlines w body))).outline .contents =
      (kindOfLexeme start (.tag pair sigil body)).rename (afterNewlines w) :=
  outline_kindOfTag (trim_afterNewlines hw body) sigil

/-- The contents of a tag with the indent in its body, wherever it stands. -/
theorem outline_tag (hw : AllBlank w) (pair : Delimiters) (sigil : Sigil) (body : List Char)
    (start start' : Nat) (whole : Fragment) :
    outline .contents ⟨kindOfLexeme start' (.tag pair sigil (afterNewlines w body)), whole, false⟩ =
      some ⟨(kindOfLexeme start (.tag pair sigil body)).rename (afterNewlines w), ⟨0, []⟩,
        false⟩ := by
  rw [outline_of_kind_ne_text _ (kindOfTag_ne_text sigil _),
    outline_kindOfLexeme_tag hw pair sigil body start]
  rfl

/-- The contents of a lexeme behind its indent are those of its token behind the indent, and what
follows it begins a line if the lexeme ends one. -/
theorem exists_outline_ofLexemes_behindIndent (hw : IsIndent w) {l : Lexeme} (hl : l.chars ≠ [])
    (start start' : Nat) (beginsLine : Bool) :
    ∃ next, ∀ ls, (ofLexemes start' beginsLine (l.behindIndent w beginsLine ++ ls)).filterMap
        (fun t => t.outline .contents) =
      behindIndent w ⟨kindOfLexeme start l, ⟨start, l.chars⟩, beginsLine⟩ ++
        (ofLexemes next l.endsLine ls).filterMap fun t => t.outline .contents := by
  cases l with
  | text chars =>
    have hchars : chars ≠ [] := hl
    have hlast : ((lead w beginsLine ++ chars).getLast? == some '\n') =
        (chars.getLast? == some '\n') := by
      rw [List.getLast?_append_of_ne_nil _ hchars]
    refine ⟨start' + byteLength (lead w beginsLine ++ chars), fun ls => ?_⟩
    show _ :: (ofLexemes _ ((lead w beginsLine ++ chars).getLast? == some '\n') ls).filterMap _ = _
    rw [hlast]
    rfl
  | tag pair sigil body =>
    let tag : Lexeme := .tag pair sigil body
    let longer : Lexeme := .tag pair sigil (afterNewlines w body)
    have hends : tag.endsLine = longer.endsLine := by
      rw [Lexeme.endsLine_tag, Lexeme.endsLine_tag]
    have htag : behindIndent w ⟨kindOfLexeme start tag, ⟨start, tag.chars⟩, beginsLine⟩ =
        (if beginsLine then [⟨.text, ⟨0, w⟩, true⟩] else []) ++
          [⟨(kindOfLexeme start tag).rename (afterNewlines w), ⟨0, []⟩, false⟩] :=
      behindIndent_of_kind_ne_text (kindOfTag_ne_text sigil _)
    have hlonger := outline_tag hw.blank pair sigil body start
    rw [htag, hends]
    cases beginsLine with
    | false =>
      refine ⟨start' + byteLength longer.chars, fun ls => ?_⟩
      show (_ :: ofLexemes _ longer.endsLine ls).filterMap _ = _
      rw [List.filterMap_cons_some (hlonger start' _)]
      rfl
    | true =>
      have hindent : (w.getLast? == some '\n') = false := by
        by_contra hnewline
        refine hw.newline (List.mem_of_getLast? ?_)
        simpa using hnewline
      refine ⟨start' + byteLength w + byteLength longer.chars, fun ls => ?_⟩
      show (_ :: ⟨_, ⟨_, longer.chars⟩, w.getLast? == some '\n'⟩ ::
        ofLexemes _ longer.endsLine ls).filterMap _ = _
      rw [hindent, List.filterMap_cons, List.filterMap_cons_some (hlonger _ _)]
      rfl

/-- The contents of the tokens of an indented source are those of the source behind the indents of
their lines. -/
theorem outline_ofLexemes_behindIndents (hw : IsIndent w) {ls : List Lexeme}
    (hls : ∀ l ∈ ls, l.chars ≠ []) (start start' : Nat) (beginsLine : Bool) :
    (ofLexemes start' beginsLine (Scan.behindIndents w beginsLine ls)).filterMap
        (fun t => t.outline .contents) =
      (ofLexemes start beginsLine ls).flatMap (behindIndent w) := by
  induction ls generalizing start start' beginsLine with
  | nil => rfl
  | cons l ls ih =>
    obtain ⟨next, hnext⟩ :=
      exists_outline_ofLexemes_behindIndent hw (hls l List.mem_cons_self) start start' beginsLine
    have hrest := ih (fun l' hl' => hls l' (List.mem_cons_of_mem _ hl'))
      (start + byteLength l.chars) next l.endsLine
    rw [Scan.behindIndents, hnext, hrest]
    rfl

/-- The tokens of an indented source: there are some exactly if the source has some, under the same
pair at the end, and their contents are those of the source behind the indents of their lines. -/
theorem exists_ofSource_indentLines (hne : w ≠ []) (hw : IsIndent w) {pair : Delimiters}
    {source : List Char} {stream : Stream} (h : ofSource pair source = .ok stream) :
    ∃ tokens, ofSource pair (indentLines w source) = .ok ⟨tokens, stream.live⟩ ∧
      tokens.filterMap (fun t => t.outline .contents) = stream.tokens.flatMap (behindIndent w) := by
  obtain ⟨hfinished, htokens⟩ := ofScan_eq_ok h
  obtain ⟨hending, hlexemes⟩ := Scan.read_indentFrom hne hw pair source true
  rw [hfinished] at hending
  have hchars := Scan.chars_ne_nil_of_mem pair source
  refine ⟨ofLexemes 0 true (Scan.behindIndents w true (Scan.read pair source).lexemes), ?_, ?_⟩
  · rw [ofSource, ofScan, indentLines, hending, hlexemes _ hfinished]
    rfl
  · rw [htokens]
    exact outline_ofLexemes_behindIndents hw hchars 0 0 true

/-- An indented source has tokens only if the source has. -/
theorem exists_ofSource_of_indentLines (hne : w ≠ []) (hw : IsIndent w) {pair : Delimiters}
    {source : List Char} {stream : Stream} (h : ofSource pair (indentLines w source) = .ok stream) :
    ∃ stream', ofSource pair source = .ok stream' := by
  obtain ⟨hfinished, -⟩ := ofScan_eq_ok h
  obtain ⟨hending, -⟩ := Scan.read_indentFrom hne hw pair source true
  rw [indentLines, hending] at hfinished
  rw [ofSource, ofScan]
  cases hread : (Scan.read pair source).ending with
  | finished live => exact ⟨_, rfl⟩
  | unclosed pair sigil =>
    rw [hread] at hfinished
    cases hfinished
  | badMarkers pair body =>
    rw [hread] at hfinished
    cases hfinished

/-- Every token of an indented source has the contents of a token of the source behind its indent,
or of the indent. -/
theorem exists_behindIndent_of_ofSource (hne : w ≠ []) (hw : IsIndent w) {pair : Delimiters}
    {source : List Char} {stream : Stream} (h : ofSource pair (indentLines w source) = .ok stream) :
    ∃ plain, ofSource pair source = .ok plain ∧ ∀ t ∈ stream.tokens, ∃ v ∈ plain.tokens,
      ∃ u ∈ behindIndent w v, t.outline .contents = some u := by
  obtain ⟨plain, hsource⟩ := exists_ofSource_of_indentLines hne hw h
  obtain ⟨tokens, htokens, hcontents⟩ := exists_ofSource_indentLines hne hw hsource
  obtain rfl : tokens = stream.tokens := by
    rw [htokens] at h
    exact congrArg Stream.tokens (Except.ok.inj h)
  refine ⟨plain, hsource, fun t ht => ?_⟩
  obtain ⟨u, hu, -⟩ := exists_outline Outline.keepsText_contents t
  have hmem : u ∈ stream.tokens.filterMap fun t => t.outline .contents :=
    List.mem_filterMap.2 ⟨t, ht, hu⟩
  rw [hcontents] at hmem
  obtain ⟨v, hv, huv⟩ := List.mem_flatMap.1 hmem
  exact ⟨v, hv, u, huv, hu⟩

end Token

end Mustache
