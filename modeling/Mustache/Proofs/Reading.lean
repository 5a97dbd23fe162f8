import Mustache.Proofs.Occurrence
import Mustache.Token

/-!
# Reading a template tag by tag

A template is read from one tag to the next.  The live left marker is looked
for in what is left, then the terminator that belongs to the kind of the tag,
and a set delimiter tag replaces the live pair.  How far a template can be read
is described here without regard to lines, since only the tags matter for
whether it can be read at all.

Main results:

- Theorem `Scan.read_append_of_clear`: text in front of a tag or of the end is
  cut into lexemes of text.
- Theorem `Reaches.scan`: the lexemes of a template begin with those that were
  read on the way to any reading.
- Theorem `Reaches.exists_stuck`: every reading goes on until it is finished or
  finds a tag that cannot be read.
-/

namespace Mustache

/-! ## Kinds of tags -/

namespace Sigil

/-- A kind of tag whose mark begins a text, and what follows the mark.  A tag is plain if the text
begins with no mark. -/
inductive Marks : Sigil → List Char → List Char → Prop
  | ampersand {inner : List Char} : Marks .ampersand ('&' :: inner) inner
  | brace {inner : List Char} : Marks .brace ('{' :: inner) inner
  | hash {inner : List Char} : Marks .hash ('#' :: inner) inner
  | caret {inner : List Char} : Marks .caret ('^' :: inner) inner
  | slash {inner : List Char} : Marks .slash ('/' :: inner) inner
  | angle {inner : List Char} : Marks .angle ('>' :: inner) inner
  | bang {inner : List Char} : Marks .bang ('!' :: inner) inner
  | equals {inner : List Char} : Marks .equals ('=' :: inner) inner
  | plain {inner : List Char}
      (h : ∀ c ∈ inner.head?, c ∉ ['&', '{', '#', '^', '/', '>', '!', '=']) :
      Marks .plain inner inner

/-- The text that ends a tag of a kind: the right marker, behind a brace or an equals sign if the
tag begins with one. -/
inductive ClosedBy (pair : Delimiters) : Sigil → List Char → Prop
  | brace : ClosedBy pair .brace ('}' :: pair.right.chars)
  | equals : ClosedBy pair .equals ('=' :: pair.right.chars)
  | other {sigil : Sigil} (hbrace : sigil ≠ .brace) (hequals : sigil ≠ .equals) :
      ClosedBy pair sigil pair.right.chars

/-- No kind is announced by a character that is no mark. -/
theorem ofChar?_eq_none_iff (c : Char) :
    ofChar? c = none ↔ c ∉ ['&', '{', '#', '^', '/', '>', '!', '='] := by
  unfold ofChar?
  split <;> simp_all

/-- A kind is read exactly where its mark stands. -/
theorem read_eq_iff {after inner : List Char} {sigil : Sigil} :
    read after = (sigil, inner) ↔ Marks sigil after inner := by
  constructor
  · intro h
    cases after with
    | nil =>
      cases h
      exact .plain (by simp)
    | cons c cs =>
      rw [read] at h
      cases hc : ofChar? c with
      | none =>
        rw [hc] at h
        cases h
        refine .plain ?_
        rintro d ⟨⟩
        exact (ofChar?_eq_none_iff c).1 hc
      | some found =>
        rw [hc] at h
        cases h
        unfold ofChar? at hc
        split at hc <;> cases hc <;> constructor
  · intro h
    cases h with
    | plain hplain =>
      cases after with
      | nil => rfl
      | cons c cs => rw [read, (ofChar?_eq_none_iff c).2 (hplain c rfl)]
    | _ => rfl

/-- A kind of tag has one terminator. -/
theorem closedBy_iff {pair : Delimiters} {sigil : Sigil} {terminator : List Char} :
    ClosedBy pair sigil terminator ↔ terminator = sigil.terminator pair := by
  constructor
  · intro h
    cases h with
    | brace | equals => rfl
    | other hbrace hequals => cases sigil <;> first | rfl | contradiction
  · rintro rfl
    cases sigil with
    | brace => exact .brace
    | equals => exact .equals
    | _ => exact .other (by simp) (by simp)

end Sigil

/-! ## Readings -/

/-- A tag that begins at an offset. -/
structure PlacedTag where
  start : Nat
  pair : Delimiters
  sigil : Sigil
  body : List Char

/-- All that the tag covers. -/
def PlacedTag.whole (t : PlacedTag) : Fragment :=
  ⟨t.start, (Lexeme.tag t.pair t.sigil t.body).chars⟩

/-- What has been read of a template, the pair that is live, and what is left to be read. -/
structure Reading where
  passed : List Char
  tags : List PlacedTag
  live : Delimiters
  left : List Char

namespace Reading

/-- Nothing has been read. -/
def start (pair : Delimiters) (source : List Char) : Reading :=
  ⟨[], [], pair, source⟩

/-- Another tag opens behind some text.  This is its kind, the text that has to end it, and what
follows its mark. -/
def Opens (r : Reading) (text : List Char) (sigil : Sigil) (terminator inner : List Char) : Prop :=
  ∃ after, Text.FirstAt r.live.left.chars r.left text after ∧ sigil.Marks after inner ∧
    sigil.ClosedBy r.live terminator

/-- Another tag with this body stands behind some text. -/
def Holds (r : Reading) (text : List Char) (sigil : Sigil) (body rest : List Char) : Prop :=
  ∃ terminator inner, r.Opens text sigil terminator inner ∧ Text.FirstAt terminator inner body rest

/-- The tag behind some text, at its place in the template. -/
def nextTag (r : Reading) (text : List Char) (sigil : Sigil) (body : List Char) : PlacedTag :=
  ⟨Text.byteLength (r.passed ++ text), r.live, sigil, body⟩

/-- The reading after the tag behind some text, from where on a pair is live. -/
def next (r : Reading) (text : List Char) (sigil : Sigil) (body : List Char) (live : Delimiters)
    (rest : List Char) : Reading :=
  ⟨r.passed ++ (text ++ (r.nextTag text sigil body).whole.text),
    r.tags ++ [r.nextTag text sigil body], live, rest⟩

/-- A pair is live after a tag: the one that a set delimiter tag names, or the one before. -/
def LiveAfter (r : Reading) (sigil : Sigil) (body : List Char) (live : Delimiters) : Prop :=
  if sigil = .equals then Delimiters.NamedBy body live else live = r.live

/-- No other tag opens. -/
def Finished (r : Reading) : Prop :=
  ¬ r.live.left.chars <:+: r.left

/-- Another tag opens behind some text, but its terminator does not follow. -/
def Unclosed (r : Reading) (text terminator : List Char) : Prop :=
  ∃ sigil inner, r.Opens text sigil terminator inner ∧ ¬ terminator <:+: inner

/-- Another set delimiter tag stands behind some text, but it does not name a pair. -/
def Misnamed (r : Reading) (text body : List Char) : Prop :=
  ∃ rest, r.Holds text .equals body rest ∧ ∀ pair, ¬ Delimiters.NamedBy body pair

/-- The reading cannot go on. -/
def Stuck (r : Reading) : Prop :=
  r.Finished ∨ (∃ text terminator, r.Unclosed text terminator) ∨ ∃ text body, r.Misnamed text body

end Reading

/-- The readings to which a template can be read from a given pair of markers. -/
inductive Reaches (pair : Delimiters) (source : List Char) : Reading → Prop
  | start : Reaches pair source (.start pair source)
  | tag {r : Reading} {text body rest : List Char} {sigil : Sigil} {live : Delimiters}
      (before : Reaches pair source r) (holds : r.Holds text sigil body rest)
      (hlive : r.LiveAfter sigil body live) :
      Reaches pair source (r.next text sigil body live rest)

/-! ## Text between tags -/

namespace Text

/-- No marker begins in the text when it stands in front of `after`. -/
def Clear (marker text after : List Char) : Prop :=
  ∀ t₁ t₂, text = t₁ ++ t₂ → t₂ ≠ [] → ¬ marker <+: t₂ ++ after

variable {marker text before after : List Char}

/-- No marker begins before its first occurrence. -/
theorem FirstAt.clear (h : FirstAt marker text before after) :
    Clear marker before (marker ++ after) := by
  rintro t₁ t₂ rfl hne ⟨a, ha⟩
  have hle := h.first t₁ a (by rw [h.eq, ha, List.append_assoc])
  have hpos := List.length_pos_iff.2 hne
  rw [List.length_append] at hle
  omega

/-- A text that does not hold a marker is clear of it. -/
theorem clear_of_absent (h : ¬ marker <:+: text) : Clear marker text [] := by
  rintro t₁ t₂ rfl - ⟨rest, hrest⟩
  rw [List.append_nil] at hrest
  exact h ⟨t₁, rest, by rw [← hrest, List.append_assoc]⟩

/-- The end of a clear text is clear. -/
theorem Clear.of_append (t₁ : List Char) {t₂ : List Char} (h : Clear marker (t₁ ++ t₂) after) :
    Clear marker t₂ after := by
  rintro u₁ u₂ rfl hne
  exact h (t₁ ++ u₁) u₂ (List.append_assoc ..).symm hne

end Text

namespace Step

/-- A run of text has no character where a tag begins. -/
theorem textRun_left_append (m : Marker) (after : List Char) :
    textRun m.chars (m.chars ++ after) = ([], m.chars ++ after) := by
  obtain ⟨c, cs, hchars, hc⟩ := m.exists_cons
  have hprefix : m.chars.isPrefixOf (m.chars ++ after) = true :=
    List.isPrefixOf_iff_prefix.2 (List.prefix_append _ _)
  rw [hchars, List.cons_append] at hprefix ⊢
  have hnewline : c ≠ '\n' := by
    rintro rfl
    exact absurd hc (by decide)
  rw [textRun, if_neg hnewline, if_pos hprefix]

/-- In a clear text, a run of text comes to its end only after a first character. -/
theorem textRun_of_clear {left text after : List Char} (hclear : Text.Clear left text after)
    (hafter : textRun left after = ([], after)) :
    ∃ t₁ t₂, text = t₁ ++ t₂ ∧ textRun left (text ++ after) = (t₁, t₂ ++ after) ∧
      (text ≠ [] → t₁ ≠ []) := by
  induction text with
  | nil => exact ⟨[], [], rfl, hafter, fun h => h⟩
  | cons c cs ih =>
    rw [List.cons_append, textRun]
    split
    · exact ⟨[c], cs, rfl, rfl, by simp⟩
    · split
      · rename_i hprefix
        exact absurd (List.isPrefixOf_iff_prefix.1 hprefix) (hclear [] (c :: cs) rfl (by simp))
      · obtain ⟨t₁, t₂, hcs, hrun, -⟩ := ih (Text.Clear.of_append [c] hclear)
        refine ⟨c :: t₁, t₂, congrArg (List.cons c) hcs, ?_, by simp⟩
        rw [hrun]

/-- Where a tag begins, the tag is read. -/
theorem read_left_append (pair : Delimiters) (after : List Char) :
    read pair (pair.left.chars ++ after) =
      readTag pair (Sigil.read after).1 (Sigil.read after).2 := by
  have hprefix : pair.left.chars.isPrefixOf (pair.left.chars ++ after) = true :=
    List.isPrefixOf_iff_prefix.2 (List.prefix_append _ _)
  have hdrop : (pair.left.chars ++ after).drop pair.left.chars.length = after := List.drop_left
  obtain ⟨c, cs, hchars, -⟩ := pair.left.exists_cons
  generalize htext : pair.left.chars ++ after = text at hprefix hdrop
  cases text with
  | nil =>
    rw [hchars] at htext
    cases htext
  | cons d ds => rw [read, if_pos hprefix, hdrop]

/-- A tag is read as it stands if the text that ends it does not begin inside it. -/
theorem read_tag {pair : Delimiters} {sigil : Sigil} {name rest : List Char}
    (hequals : sigil ≠ .equals)
    (hmarks : sigil.Marks (sigil.mark ++ (name ++ (sigil.terminator pair ++ rest)))
      (name ++ (sigil.terminator pair ++ rest)))
    (hname : ∀ c ∈ (sigil.terminator pair).head?, c ∉ name) :
    read pair ((Lexeme.tag pair sigil name).chars ++ rest) =
      .lexeme (.tag pair sigil name) pair rest := by
  have hchars : (Lexeme.tag pair sigil name).chars ++ rest =
      pair.left.chars ++ (sigil.mark ++ (name ++ (sigil.terminator pair ++ rest))) := by
    simp [Lexeme.chars]
  have hbreak : Text.breakOn (sigil.terminator pair) (name ++ (sigil.terminator pair ++ rest)) =
      some (name, rest) := by
    cases hterminator : sigil.terminator pair with
    | nil => cases sigil <;> simp [Sigil.terminator, pair.right.usable.1] at hterminator
    | cons d ds => exact Text.breakOn_append_of_not_mem (hname d (by rw [hterminator]; rfl)) rest
  rw [hchars, read_left_append, Sigil.read_eq_iff.2 hmarks, readTag, hbreak]
  simp only [if_neg hequals]

end Step

namespace Scan

/-- Puts lexemes in front of what follows them. -/
def prepend (ls : List Lexeme) (s : Scan) : Scan :=
  ⟨ls ++ s.lexemes, s.ending⟩

@[simp]
theorem prepend_append (xs ys : List Lexeme) (s : Scan) :
    s.prepend (xs ++ ys) = (s.prepend ys).prepend xs := by
  simp [prepend]

/-- Text in front of a tag or of the end is cut into lexemes of text. -/
theorem read_append_of_clear {live : Delimiters} (text after : List Char)
    (hclear : Text.Clear live.left.chars text after)
    (hafter : Step.textRun live.left.chars after = ([], after)) :
    ∃ texts : List (List Char), texts.flatten = text ∧
      read live (text ++ after) = (read live after).prepend (texts.map Lexeme.text) := by
  induction hlength : text.length using Nat.strongRecOn generalizing text with
  | ind n ih =>
    obtain ⟨t₁, t₂, rfl, hrun, hne⟩ := Step.textRun_of_clear hclear hafter
    cases htext : t₁ ++ t₂ with
    | nil => exact ⟨[], rfl, rfl⟩
    | cons c cs =>
      have ht₁ : t₁ ≠ [] := hne (by simp [htext])
      have hlt : t₂.length < n := by
        have hpos := List.length_pos_iff.2 ht₁
        rw [List.length_append] at hlength
        omega
      obtain ⟨texts, hflatten, hread⟩ := ih t₂.length hlt t₂ (hclear.of_append t₁) rfl
      have hno : ¬ live.left.chars.isPrefixOf (c :: cs ++ after) = true := by
        rw [List.isPrefixOf_iff_prefix]
        exact hclear [] (c :: cs) htext (by simp)
      have hstep : Step.read live (c :: cs ++ after) = .lexeme (.text t₁) live (t₂ ++ after) := by
        rw [htext, List.cons_append] at hrun
        rw [List.cons_append] at hno ⊢
        rw [Step.read, if_neg hno, hrun]
      refine ⟨t₁ :: texts, ?_, ?_⟩
      · rw [List.flatten_cons, hflatten, htext]
      · rw [read_of_lexeme hstep, hread]
        rfl

end Scan

/-! ## Tags between text -/

/-- The tags among lexemes of which the first begins at an offset. -/
def placedTags (start : Nat) : List Lexeme → List PlacedTag
  | [] => []
  | .text chars :: ls => placedTags (start + Text.byteLength chars) ls
  | .tag pair sigil body :: ls =>
    let t : PlacedTag := ⟨start, pair, sigil, body⟩
    t :: placedTags t.whole.stop ls

/-- The tags among lexemes in a row are those of the first and those of the others. -/
theorem placedTags_append (start : Nat) (xs ys : List Lexeme) :
    placedTags start (xs ++ ys) = placedTags start xs ++
      placedTags (start + Text.byteLength (xs.flatMap Lexeme.chars)) ys := by
  induction xs generalizing start with
  | nil => rfl
  | cons l ls ih =>
    cases l with
    | text chars => simp [placedTags, ih, Lexeme.chars, Nat.add_assoc]
    | tag pair sigil body =>
      simp [placedTags, ih, PlacedTag.whole, Fragment.stop, Nat.add_assoc]

/-- There is no tag in text. -/
theorem placedTags_text (start : Nat) (texts : List (List Char)) :
    placedTags start (texts.map Lexeme.text) = [] := by
  induction texts generalizing start with
  | nil => rfl
  | cons text texts ih => exact ih _

theorem flatMap_chars_text (texts : List (List Char)) :
    (texts.map Lexeme.text).flatMap Lexeme.chars = texts.flatten := by
  induction texts with
  | nil => rfl
  | cons text texts ih => simp [Lexeme.chars, ih]

namespace Reading

variable {r : Reading} {text body terminator inner rest : List Char} {sigil : Sigil}

/-- What is read in front of a tag that opens is text. -/
theorem Opens.scan (h : r.Opens text sigil terminator inner) :
    ∃ texts : List (List Char), texts.flatten = text ∧ ∃ after,
      Step.read r.live after = Step.readTag r.live sigil inner ∧
      Scan.read r.live r.left = (Scan.read r.live after).prepend (texts.map Lexeme.text) := by
  obtain ⟨after, hfirst, hmarks, -⟩ := h
  obtain ⟨texts, hflatten, hread⟩ := Scan.read_append_of_clear text (r.live.left.chars ++ after)
    hfirst.clear (Step.textRun_left_append r.live.left after)
  refine ⟨texts, hflatten, r.live.left.chars ++ after, ?_, ?_⟩
  · rw [Step.read_left_append, Sigil.read_eq_iff.2 hmarks]
  · rw [hfirst.eq, hread]

/-- The text that has to end a tag is the one that is looked for. -/
theorem Opens.eq_terminator (h : r.Opens text sigil terminator inner) :
    terminator = sigil.terminator r.live := by
  obtain ⟨after, -, -, hclosed⟩ := h
  exact Sigil.closedBy_iff.1 hclosed

/-- Where no other tag opens, the rest is text. -/
theorem Finished.scan (h : r.Finished) :
    ∃ texts : List (List Char), texts.flatten = r.left ∧
      Scan.read r.live r.left = ⟨texts.map Lexeme.text, .finished r.live⟩ := by
  obtain ⟨texts, hflatten, hread⟩ :=
    Scan.read_append_of_clear r.left [] (Text.clear_of_absent h) rfl
  have hstep : Step.read r.live [] = .ended (.finished r.live) := rfl
  refine ⟨texts, hflatten, ?_⟩
  rw [List.append_nil, Scan.read_of_ended hstep] at hread
  rw [hread, Scan.prepend, List.append_nil]

/-- Text and a tag whose terminator does not follow: reading ends in front of the tag. -/
theorem Unclosed.scan (h : r.Unclosed text terminator) :
    ∃ (sigil : Sigil) (texts : List (List Char)), terminator = sigil.terminator r.live ∧
      texts.flatten = text ∧
      Scan.read r.live r.left = ⟨texts.map Lexeme.text, .unclosed r.live sigil⟩ := by
  obtain ⟨sigil, inner, hopens, habsent⟩ := h
  obtain ⟨texts, hflatten, after, hstep, hread⟩ := hopens.scan
  refine ⟨sigil, texts, hopens.eq_terminator, hflatten, ?_⟩
  rw [hopens.eq_terminator] at habsent
  rw [Step.readTag, Text.breakOn_eq_none_iff.2 habsent] at hstep
  rw [hread, Scan.read_of_ended hstep, Scan.prepend, List.append_nil]

/-- Text and a set delimiter tag without a pair: reading ends in front of the tag. -/
theorem Misnamed.scan (h : r.Misnamed text body) :
    ∃ texts : List (List Char), texts.flatten = text ∧
      Scan.read r.live r.left = ⟨texts.map Lexeme.text, .badMarkers r.live body⟩ := by
  obtain ⟨rest, ⟨terminator, inner, hopens, hfirst⟩, hnone⟩ := h
  rw [hopens.eq_terminator] at hfirst
  obtain ⟨texts, hflatten, after, hstep, hread⟩ := hopens.scan
  refine ⟨texts, hflatten, ?_⟩
  have hbody : Delimiters.ofBody? body = none := by
    cases hpair : Delimiters.ofBody? body with
    | none => rfl
    | some pair => exact absurd (Delimiters.ofBody?_eq_some_iff.1 hpair) (hnone pair)
  rw [Step.readTag, Text.breakOn_eq_some_iff.2 hfirst] at hstep
  simp only [if_true, hbody] at hstep
  rw [hread, Scan.read_of_ended hstep, Scan.prepend, List.append_nil]

/-- Text and a tag: reading goes on after the tag. -/
theorem Holds.scan {live : Delimiters} (h : r.Holds text sigil body rest)
    (hlive : r.LiveAfter sigil body live) :
    ∃ texts : List (List Char), texts.flatten = text ∧
      Scan.read r.live r.left = (Scan.read live rest).prepend
        (texts.map Lexeme.text ++ [.tag r.live sigil body]) := by
  obtain ⟨terminator, inner, hopens, hfirst⟩ := h
  rw [hopens.eq_terminator] at hfirst
  obtain ⟨texts, hflatten, after, hstep, hread⟩ := hopens.scan
  refine ⟨texts, hflatten, ?_⟩
  have htag : Step.read r.live after = .lexeme (.tag r.live sigil body) live rest := by
    rw [hstep, Step.readTag, Text.breakOn_eq_some_iff.2 hfirst]
    unfold LiveAfter at hlive
    dsimp only
    split at hlive
    · rename_i heq
      rw [if_pos heq, Delimiters.ofBody?_eq_some_iff.2 hlive]
    · rename_i hne
      rw [if_neg hne, hlive]
  rw [hread, Scan.read_of_lexeme htag, Scan.prepend_append]
  rfl

/-- What is left after a tag is shorter. -/
theorem Holds.length_lt (h : r.Holds text sigil body rest) : rest.length < r.left.length := by
  obtain ⟨terminator, inner, ⟨after, hmarker, hmarks, -⟩, hterminator⟩ := h
  have hafter := Sigil.mark_append_of_read after
  rw [Sigil.read_eq_iff.2 hmarks, hterminator.eq] at hafter
  have hpos := r.live.left.length_pos
  rw [hmarker.eq, ← hafter]
  simp only [List.length_append]
  omega

/-- A reading that is not stuck goes on with another tag. -/
theorem stuck_or_holds (r : Reading) :
    r.Stuck ∨ ∃ text sigil body rest live,
      r.Holds text sigil body rest ∧ r.LiveAfter sigil body live := by
  by_cases hfinished : r.Finished
  · exact .inl (.inl hfinished)
  obtain ⟨⟨text, after⟩, hmarker⟩ := Text.exists_breakOn (not_not.1 hfinished)
  obtain ⟨sigil, inner, hmarks⟩ : ∃ sigil inner, Sigil.Marks sigil after inner :=
    ⟨_, _, Sigil.read_eq_iff.1 rfl⟩
  have hopens : r.Opens text sigil (sigil.terminator r.live) inner :=
    ⟨after, Text.firstAt_of_breakOn hmarker, hmarks, Sigil.closedBy_iff.2 rfl⟩
  by_cases hoccurs : sigil.terminator r.live <:+: inner
  · obtain ⟨⟨body, rest⟩, hterminator⟩ := Text.exists_breakOn hoccurs
    have hholds : r.Holds text sigil body rest :=
      ⟨_, inner, hopens, Text.firstAt_of_breakOn hterminator⟩
    by_cases hequals : sigil = .equals
    · subst hequals
      by_cases hnamed : ∃ live, Delimiters.NamedBy body live
      · obtain ⟨live, hlive⟩ := hnamed
        exact .inr ⟨text, _, body, rest, live, hholds, hlive⟩
      · exact .inl (.inr (.inr ⟨text, body, rest, hholds, not_exists.1 hnamed⟩))
    · refine .inr ⟨text, sigil, body, rest, r.live, hholds, ?_⟩
      rw [LiveAfter, if_neg hequals]
  · exact .inl (.inr (.inl ⟨text, _, sigil, inner, hopens, hoccurs⟩))

end Reading

/-! ## Readings of a template -/

namespace Reaches

variable {pair : Delimiters} {source : List Char} {r : Reading}

/-- The lexemes of a template begin with those that were read on the way to a reading. -/
theorem scan (h : Reaches pair source r) :
    ∃ ls, Scan.read pair source = (Scan.read r.live r.left).prepend ls ∧
      ls.flatMap Lexeme.chars = r.passed ∧ placedTags 0 ls = r.tags := by
  induction h with
  | start => exact ⟨[], rfl, rfl, rfl⟩
  | @tag r text body rest sigil live before holds hlive ih =>
    obtain ⟨ls, hread, hpassed, htags⟩ := ih
    obtain ⟨texts, hflatten, hnext⟩ := holds.scan hlive
    refine ⟨ls ++ (texts.map Lexeme.text ++ [.tag r.live sigil body]), ?_, ?_, ?_⟩
    · rw [hread, hnext, ← Scan.prepend_append]
      rfl
    · rw [List.flatMap_append, List.flatMap_append, flatMap_chars_text, hflatten, hpassed]
      simp [Reading.next, Reading.nextTag, PlacedTag.whole]
    · rw [placedTags_append, placedTags_append, placedTags_text, flatMap_chars_text, hflatten,
        hpassed, htags]
      simp [Reading.next, Reading.nextTag, placedTags]

/-- Every reading goes on until it is stuck. -/
theorem exists_stuck (h : Reaches pair source r) :
    ∃ last, Reaches pair source last ∧ last.Stuck := by
  induction hlength : r.left.length using Nat.strongRecOn generalizing r with
  | ind n ih =>
    rcases r.stuck_or_holds with hstuck | ⟨text, sigil, body, rest, live, hholds, hlive⟩
    · exact ⟨r, h, hstuck⟩
    · exact ih _ (hlength ▸ hholds.length_lt) (h.tag hholds hlive) rfl

end Reaches

end Mustache
