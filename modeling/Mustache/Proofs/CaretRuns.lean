import Mustache.Proofs.Carets

/-!
# Carets and the line above them

The carets count the columns of everything that is marked, but only the line in which it
begins is shown.  A mark that goes on behind the end of this line may have carets under
which nothing stands.  Where the mark keeps apart from what stands around it, so that no
picture or ligature reaches across its ends, this is the only way to have too many.

Main results:

- Theorem `Text.width_append_of_standApart`: texts that stand apart have their columns one after
  the other.
- Theorem `Diagram.picture_fitsIn_iff`: which marks have their carets under the line that is shown.
- Theorem `Session.caretsFit_iff_of_flawed`: so it is for every error of a session.
- Theorem `Session.carets_beyond_line`: a tag over two lines that has too many carets.
-/

namespace Mustache

open Text

/-! ## Texts that stand apart -/

namespace Text

namespace Width

/-- The character has the same columns whatever follows it, and nothing before it goes on with
it. -/
def IsSteady (c : Char) : Prop :=
  ∃ n : Int, ∀ f, before c f = (n, ⟨.other, none⟩)

/-- Characters of ASCII are steady if they neither take part in the end of a line nor have another
form behind which a variation selector may stand. -/
theorem isSteady_of_lt {c : Char} (hlow : c.toNat < 0xA1) (hfeed : c ≠ '\n') (hreturn : c ≠ '\r')
    (hpicture : hasPictureForm c = false) (htext : hasTextForm c = false) : IsSteady c := by
  have hsequence : ∀ s, beforeSequence c s = (1, ⟨.other, none⟩) := by
    intro s
    simp [beforeSequence, hlow, hfeed, hreturn]
  refine ⟨1, fun f => ?_⟩
  unfold before
  split
  · exact hsequence _
  · rw [if_neg (by simp [hpicture])]
    exact hsequence _
  · rw [if_neg (by simp [htext])]
    exact hsequence _

/-- In front of what nothing goes on with, a text is measured as by itself. -/
theorem measure_append {ys : List Char} (h : (measure ys).2 = ⟨.other, none⟩) (xs : List Char) :
    measure (xs ++ ys) = ((measure xs).1 + (measure ys).1, (measure xs).2) := by
  induction xs with
  | nil => simp [measure, ← h]
  | cons c cs ih =>
    rw [List.cons_append, measure, ih, measure, Int.add_assoc]

/-- Nothing goes on with a text that begins with a steady character. -/
theorem IsSteady.measure_cons {c : Char} (h : IsSteady c) (cs : List Char) :
    (measure (c :: cs)).2 = ⟨.other, none⟩ := by
  obtain ⟨n, hn⟩ := h
  rw [measure, hn]

end Width

/-- No picture and no ligature reaches across the place between the texts: there is nothing on one
of its sides, or a steady character. -/
inductive StandApart : List Char → List Char → Prop
  | left (ys : List Char) : StandApart [] ys
  | right (xs : List Char) : StandApart xs []
  | before (xs ys : List Char) {c : Char} (h : Width.IsSteady c) : StandApart (xs ++ [c]) ys
  | behind (xs ys : List Char) {c : Char} (h : Width.IsSteady c) : StandApart xs (c :: ys)

/-- In front of what nothing goes on with, a text has the columns that it has by itself. -/
theorem width_append_of_measure {ys : List Char} (h : (Width.measure ys).2 = ⟨.other, none⟩)
    (xs : List Char) : width (xs ++ ys) = width xs + width ys := by
  rw [width, Width.measure_append h,
    Int.toNat_add (Width.measure_nonneg xs) (Width.measure_nonneg ys)]
  rfl

/-- A steady character has its own columns. -/
theorem width_cons_of_isSteady {c : Char} (h : Width.IsSteady c) (cs : List Char) :
    width (c :: cs) = width [c] + width cs := by
  obtain ⟨n, hn⟩ := h
  have hall := width_cons c cs
  have hone := width_cons c []
  rw [hn] at hall hone
  rw [width_nil] at hone
  omega

/-- Texts that stand apart have their columns one after the other. -/
theorem width_append_of_standApart {xs ys : List Char} (h : StandApart xs ys) :
    width (xs ++ ys) = width xs + width ys := by
  cases h with
  | left => simp
  | right => simp
  | behind xs ys hc => exact width_append_of_measure (hc.measure_cons ys) xs
  | before xs ys hc =>
    rename_i c
    calc
      width (xs ++ [c] ++ ys) = width (xs ++ c :: ys) := by
        rw [List.append_assoc, List.singleton_append]
      _ = width xs + (width [c] + width ys) := by
        rw [width_append_of_measure (hc.measure_cons ys), width_cons_of_isSteady hc]
      _ = width (xs ++ [c]) + width ys := by
        rw [width_append_of_measure (hc.measure_cons []), Nat.add_assoc]

/-- The first line of two texts that follow each other ends in the first one, if it has a
newline. -/
theorem uptoNewline_append (xs ys : List Char) :
    uptoNewline (xs ++ ys) = uptoNewline xs ++ if '\n' ∈ xs then [] else uptoNewline ys := by
  induction xs with
  | nil => simp [uptoNewline]
  | cons c cs ih =>
    by_cases hc : c = '\n'
    · simp [uptoNewline, hc]
    · have hcons : ∀ zs, uptoNewline (c :: zs) = c :: uptoNewline zs := by
        intro zs
        rw [uptoNewline, List.takeWhile_cons_of_pos (by simp [hc]), uptoNewline]
      have hmem : '\n' ∈ c :: cs ↔ '\n' ∈ cs := by simp [Ne.symm hc]
      simp only [List.cons_append, hcons, ih, hmem]

end Text

/-! ## Pictures -/

namespace Diagram

/-- No caret stands behind the columns of the line that is shown, unless it is the only one. -/
def Picture.FitsIn (columns : List Char → Nat) (p : Picture) : Prop :=
  p.column + p.carets ≤ columns p.line ∨ p.carets = 1

/-- In a terminal, no caret stands behind the columns of the line that is shown, unless it is the
only one. -/
def Picture.CaretsFit (p : Picture) : Prop :=
  p.FitsIn width

instance (p : Picture) : Decidable p.CaretsFit :=
  inferInstanceAs (Decidable (_ ∨ _))

/-- The mark stands apart from what is before it and, if it ends on the line that is shown, from
what is behind it on this line. -/
structure MarkApart (before marked behind : List Char) : Prop where
  start : StandApart (behindNewline before) (uptoNewline (marked ++ behind))
  stop : '\n' ∉ marked → StandApart marked (uptoNewline behind)

/-- However columns are counted, if those of the mark add to those around it on the line that is
shown, its carets are under this line exactly if it has no more columns than its own first line, or
has one at most. -/
theorem picture_fitsIn_iff {columns : List Char → Nat} {finding : Finding}
    {before marked behind : List Char} (h : finding.Marks before marked behind)
    (hne : marked ++ behind ≠ [])
    (hstart : columns (behindNewline before ++ uptoNewline (marked ++ behind)) =
      columns (behindNewline before) + columns (uptoNewline (marked ++ behind)))
    (hstop : '\n' ∉ marked →
      columns (marked ++ uptoNewline behind) = columns marked + columns (uptoNewline behind)) :
    (picture columns finding).FitsIn columns ↔
      columns marked ≤ max 1 (columns (uptoNewline marked)) := by
  rw [Picture.FitsIn, picture_eq h hne]
  dsimp only
  rw [hstart, uptoNewline_append]
  by_cases hnewline : '\n' ∈ marked
  · rw [if_pos hnewline, List.append_nil]
    omega
  · rw [if_neg hnewline, uptoNewline_of_newline_not_mem hnewline, hstop hnewline]
    omega

end Diagram

/-! ## Errors of a session -/

/-- Every error of a session that points into a source marks a part of it.  If this part stands
apart from what is around it on the line that is shown, its carets are under this line exactly if it
has no more columns than its own first line, or has one at most. -/
theorem Session.caretsFit_iff_of_flawed {σ : Type} (host : Host σ) (delimiters : Delimiters)
    (limit : Nat) (init : σ) (history : List Request) :
    ∀ reply ∈ ((Session.start delimiters limit init).answerAll host history).1, ∀ finding,
      reply.answer.error? = some (.flawed finding) →
      (∃ before marked behind, finding.Marks before marked behind) ∧
        ∀ before marked behind, finding.Marks before marked behind →
          Diagram.MarkApart before marked behind →
          ((Diagram.ofFinding finding).CaretsFit ↔
            width marked ≤ max 1 (width (uptoNewline marked))) := by
  intro reply hreply finding hfinding
  have hplace : finding.HasPlace :=
    (Session.represents_start delimiters limit init).invariant_answerAll Error.invariant_hasPlace
      host history reply hreply _ hfinding
  constructor
  · obtain ⟨before, marked, behind, hmarks, -⟩ := hplace.exists_marks
    exact ⟨before, marked, behind, hmarks⟩
  · intro before marked behind hmarks hapart
    exact Diagram.picture_fitsIn_iff hmarks (hplace.ne_nil_of_marks hmarks)
      (width_append_of_standApart hapart.start) fun h => width_append_of_standApart (hapart.stop h)

/-- A tag on one line, behind a letter of two bytes and a blank, which is steady. -/
theorem Session.caretsFit_iff_of_flawed_one_line :
    let host : Host Unit := ⟨fun _ _ s => ("", s)⟩
    let source := "é \x7b\x7b#ä\x7d\x7d"
    let finding : Finding := ⟨⟨.unclosedSection "ä", ⟨3, 10⟩⟩, source, none⟩
    let replies := ((Session.start .standard 64 ()).answerAll host [.compile "t" source]).1
    (∃ reply ∈ replies, reply.answer.error? = some (.flawed finding)) ∧
      finding.Marks "é ".toList "\x7b\x7b#ä\x7d\x7d".toList [] ∧
      Diagram.MarkApart "é ".toList "\x7b\x7b#ä\x7d\x7d".toList [] ∧
      (Diagram.ofFinding finding).CaretsFit := by
  intro host source finding replies
  have hmem : (⟨.failed (.flawed finding), [], []⟩ : Reply) ∈ replies :=
    Session.failed_mem_of_compile host (by decide +kernel)
  have hmarks : finding.Marks "é ".toList "\x7b\x7b#ä\x7d\x7d".toList [] :=
    ⟨by decide, by decide, by decide⟩
  have hblank : Width.IsSteady ' ' := by
    apply Width.isSteady_of_lt <;> decide
  have hapart : Diagram.MarkApart "é ".toList "\x7b\x7b#ä\x7d\x7d".toList [] :=
    ⟨.before ['é'] _ hblank, fun _ => .right _⟩
  have hiff := (Session.caretsFit_iff_of_flawed host .standard 64 () [.compile "t" source] _ hmem
    finding rfl).2 _ _ _ hmarks hapart
  exact ⟨⟨_, hmem, rfl⟩, hmarks, hapart, hiff.2 (by decide +kernel)⟩

/-- A tag whose name stands on a second line has six columns, and so many carets, but the line that
is shown ends behind three. -/
theorem Session.carets_beyond_line :
    let host : Host Unit := ⟨fun _ _ s => ("", s)⟩
    let source := "\x7b\x7b#\na\x7d\x7d"
    let finding : Finding := ⟨⟨.unclosedSection "a", ⟨0, 7⟩⟩, source, none⟩
    let replies := ((Session.start .standard 64 ()).answerAll host [.compile "t" source]).1
    (∃ reply ∈ replies, reply.answer.error? = some (.flawed finding)) ∧
      (Diagram.ofFinding finding).column = 0 ∧ (Diagram.ofFinding finding).carets = 6 ∧
      width (Diagram.ofFinding finding).line = 3 ∧ ¬ (Diagram.ofFinding finding).CaretsFit := by
  intro host source finding replies
  have hmem : (⟨.failed (.flawed finding), [], []⟩ : Reply) ∈ replies :=
    Session.failed_mem_of_compile host (by decide +kernel)
  exact ⟨⟨_, hmem, rfl⟩, by decide +kernel, by decide +kernel, by decide +kernel, by decide +kernel⟩

end Mustache
