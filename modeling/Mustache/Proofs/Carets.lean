import Mathlib.Data.List.DropRight
import Mustache.Proofs.FlawPlaces

/-!
# Diagrams point at the place of the flaw

The line of an offset is found by counting the lengths of lines, of which there is none
behind a last newline.  As no flaw begins at the end of its source, this finds the line
that holds the place of the flaw: the number of the line counts the newlines before it,
and the column is the width of what stands before it on its line.

Main results:

- Theorem `Diagram.position?_lines_append`: the line of a place, its column and its text.
- Theorem `Diagram.picture_eq`: the picture of a finding that marks a part of its source.
- Theorem `Text.countsDigits_width`: in a terminal, digits have one column each.
- Theorem `Diagram.ofError_of_marks`: an error is shown at the part of its source that it marks.
- Theorem `Session.pretty_of_flawed`: every error of a session that points into a source is
  shown at its place.
-/

namespace Mustache

open Text

/-! ## Around a newline -/

namespace Text

/-- The end of a text behind its last newline. -/
def behindNewline (cs : List Char) : List Char :=
  cs.rtakeWhile (· ≠ '\n')

/-- The beginning of a text before its first newline. -/
def uptoNewline (cs : List Char) : List Char :=
  cs.takeWhile (· ≠ '\n')

theorem behindNewline_of_newline_not_mem {cs : List Char} (h : '\n' ∉ cs) :
    behindNewline cs = cs := by
  rw [behindNewline, List.rtakeWhile_eq_self_iff]
  intro c hc
  simpa using fun heq : c = '\n' => h (heq ▸ hc)

theorem uptoNewline_of_newline_not_mem {cs : List Char} (h : '\n' ∉ cs) : uptoNewline cs = cs := by
  rw [uptoNewline, List.takeWhile_eq_self_iff]
  intro c hc
  simpa using fun heq : c = '\n' => h (heq ▸ hc)

/-- Only what stands behind the last newline counts. -/
theorem behindNewline_append (xs ys : List Char) :
    behindNewline (xs ++ '\n' :: ys) = behindNewline ys := by
  induction ys using List.reverseRecOn with
  | nil => rw [behindNewline, List.rtakeWhile_concat_neg _ _ _ (by simp)]; rfl
  | append_singleton ys c ih =>
    rw [behindNewline, behindNewline] at *
    rw [← List.cons_append, ← List.append_assoc]
    by_cases hc : c = '\n'
    · rw [List.rtakeWhile_concat_neg _ _ _ (by simp [hc]),
        List.rtakeWhile_concat_neg _ _ _ (by simp [hc])]
    · rw [List.rtakeWhile_concat_pos _ _ _ (by simp [hc]),
        List.rtakeWhile_concat_pos _ _ _ (by simp [hc]), ih]

end Text

namespace Diagram

variable {columns : List Char → Nat}

/-! ## Lines -/

/-- The first line of a text goes on up to the first newline. -/
theorem exists_lines_append {line : List Char} (hline : '\n' ∉ line) {rest : List Char}
    (hne : rest ≠ []) : ∃ more, lines (line ++ rest) = (line ++ uptoNewline rest) :: more := by
  by_cases hrest : '\n' ∈ rest
  · obtain ⟨front, back, rfl, hfront⟩ := List.eq_append_cons_of_mem hrest
    have hupto : uptoNewline (front ++ '\n' :: back) = front := by
      rw [uptoNewline, List.takeWhile_append_of_pos]
      · simp
      · intro c hc
        simpa using fun heq : c = '\n' => hfront (heq ▸ hc)
    refine ⟨lines back, ?_⟩
    rw [hupto, ← List.append_assoc]
    exact lines_append_newline (by simp [hline, hfront]) back
  · refine ⟨[], ?_⟩
    rw [uptoNewline_of_newline_not_mem hrest]
    exact lines_of_newline_not_mem (by simp [hne]) (by simp [hline, hrest])

/-- The line of a place, which does not end the text, has as many lines before it as there are
newlines.  The column is the one behind what stands before the place on this line, and the line goes
on up to the next newline. -/
theorem position?_lines_append (before : List Char) {rest : List Char} (hne : rest ≠ []) :
    position? columns (byteLength before) (lines (before ++ rest)) =
        some (before.count '\n', columns (behindNewline before)) ∧
      (lines (before ++ rest))[before.count '\n']? =
        some (behindNewline before ++ uptoNewline rest) := by
  induction hlength : before.length using Nat.strongRecOn generalizing before with
  | ind n ih =>
    by_cases hnewline : '\n' ∈ before
    · obtain ⟨line, inner, rfl, hline⟩ := List.eq_append_cons_of_mem hnewline
      have hshorter : inner.length < n := by
        rw [← hlength]
        simp only [List.length_append, List.length_cons]
        omega
      obtain ⟨hposition, hget⟩ := ih inner.length hshorter inner rfl
      have hone : ('\n').utf8Size = 1 := rfl
      have hoffset : byteLength (line ++ '\n' :: inner) =
          byteLength line + 1 + byteLength inner := by
        rw [byteLength_append, byteLength_cons, hone]
        omega
      have hcount : (line ++ '\n' :: inner).count '\n' = inner.count '\n' + 1 := by
        rw [List.count_append, List.count_eq_zero_of_not_mem hline, List.count_cons_self,
          Nat.zero_add]
      rw [List.append_assoc, List.cons_append, lines_append_newline hline, hcount,
        behindNewline_append]
      constructor
      · rw [position?, hoffset, if_neg (by omega), Nat.add_sub_cancel_left, hposition]
        rfl
      · rw [List.getElem?_cons_succ, hget]
    · obtain ⟨more, hmore⟩ := exists_lines_append hnewline hne
      rw [hmore, List.count_eq_zero_of_not_mem hnewline,
        behindNewline_of_newline_not_mem hnewline]
      constructor
      · have hhere : byteLength before < byteLength (before ++ uptoNewline rest) + 1 := by
          rw [byteLength_append]
          omega
        rw [position?, if_pos hhere, takeBytes_append]
      · rfl

end Diagram

/-! ## Pictures -/

/-- The finding marks a part of its source. -/
structure Finding.Marks (finding : Finding) (before marked behind : List Char) : Prop where
  source : finding.source.toList = before ++ (marked ++ behind)
  start : finding.flaw.span.start = byteLength before
  stop : finding.flaw.span.stop = byteLength (before ++ marked)

/-- What a finding with a place marks does not begin at the end of its source. -/
theorem Finding.HasPlace.ne_nil_of_marks {finding : Finding} (h : finding.HasPlace)
    {before marked behind : List Char} (hmarks : finding.Marks before marked behind) :
    marked ++ behind ≠ [] := by
  obtain ⟨f, ⟨-, hlt⟩, hspan⟩ := h
  intro hempty
  have hstart : f.start = byteLength before := by
    rw [← hmarks.start, hspan]
    rfl
  rw [hmarks.source, hempty, List.append_nil, hstart] at hlt
  exact Nat.lt_irrefl _ hlt

/-- A finding with a place marks a part of its source, which does not begin at the end. -/
theorem Finding.HasPlace.exists_marks {finding : Finding} (h : finding.HasPlace) :
    ∃ before marked behind, finding.Marks before marked behind ∧ marked ++ behind ≠ [] := by
  have hplace := h
  obtain ⟨f, ⟨⟨before, behind, hsource, hstart⟩, -⟩, hspan⟩ := h
  have hmarks : finding.Marks before f.text behind := by
    refine ⟨hsource, ?_, ?_⟩
    · rw [hspan]
      exact hstart
    · rw [hspan, Fragment.span, Fragment.stop, hstart, byteLength_append]
  exact ⟨before, f.text, behind, hmarks, hplace.ne_nil_of_marks hmarks⟩

/-- The picture of a finding that marks a part of its source, however columns are counted. -/
theorem Diagram.picture_eq {columns : List Char → Nat} {finding : Finding}
    {before marked behind : List Char} (h : finding.Marks before marked behind)
    (hne : marked ++ behind ≠ []) :
    picture columns finding =
      { inPartial := finding.inPartial
        number := before.count '\n' + 1
        line := behindNewline before ++ uptoNewline (marked ++ behind)
        column := columns (behindNewline before)
        carets := max 1 (columns marked)
        message := finding.flaw.fault.message } := by
  obtain ⟨hposition, hline⟩ := position?_lines_append before hne
  have hwithin : byteLength (before ++ marked) ≤ byteLength (before ++ (marked ++ behind)) := by
    simp only [byteLength_append]
    omega
  unfold picture position
  dsimp only
  rw [h.source, h.start, h.stop, hposition, Option.getD_some, hline, Nat.min_eq_left hwithin,
    byteLength_append, slice_append]
  rfl

/-! ## Gutters -/

/-- Digits have one column each. -/
def Diagram.CountsDigits (columns : List Char → Nat) : Prop :=
  ∀ cs : List Char, (∀ c ∈ cs, c.isDigit = true) → columns cs = cs.length

/-- In a terminal, digits have one column each. -/
theorem Text.countsDigits_width : Diagram.CountsDigits width := by
  intro cs h
  have hmeasure : Width.measure cs = ((cs.length : Int), ⟨.other, none⟩) := by
    induction cs with
    | nil => rfl
    | cons c cs ih =>
      have hrest := ih fun d hd => h d (List.mem_cons_of_mem _ hd)
      have hdigit : 48 ≤ c.toNat ∧ c.toNat ≤ 57 := Char.isDigit_iff_toNat.1 (h c List.mem_cons_self)
      have hlow : c.toNat < 0xA1 := by omega
      have hnewline : c ≠ '\n' := by
        rintro rfl
        exact absurd hdigit (by decide)
      have hhere : Width.before c ⟨.other, none⟩ = (1, ⟨.other, none⟩) := by
        simp [Width.before, Width.beforeSequence, hlow, hnewline]
      rw [Width.measure, hrest, hhere, List.length_cons]
      simp [Int.add_comm]
  rw [width, hmeasure]
  rfl

/-- Where each character has one column, so do digits. -/
theorem Diagram.countsDigits_length : CountsDigits List.length :=
  fun _ _ => rfl

/-- A number has as many columns as digits. -/
theorem Diagram.CountsDigits.of_number {columns : List Char → Nat} (h : CountsDigits columns)
    (n : Nat) : columns (toString n).toList = (toString n).length := by
  have hdigits : (toString n).toList = Nat.toDigits 10 n := by
    rw [Nat.toString_eq_repr, Nat.repr, String.toList_ofList]
  rw [← String.length_toList, hdigits]
  exact h _ fun c hc => Nat.isDigit_of_mem_toDigits (by omega) (by omega) hc

/-! ## Diagrams -/

/-- The text of a picture, in which the gutter has as many blanks as the number of the line has
digits. -/
theorem Diagram.drawing_eq {columns : List Char → Nat} (hdigits : CountsDigits columns)
    (p : Picture) :
    drawing columns p = (p.inPartial.elim "" fun name => "\n  --> partial `" ++ name ++ "`") ++
      "\n " ++ row ' ' (toString p.number).length ++ " |\n " ++ toString p.number ++ " | " ++
      String.ofList p.line ++ "\n " ++ row ' ' (toString p.number).length ++ " | " ++
      row ' ' p.column ++ row '^' p.carets ++ " " ++ p.message ++ "\n" := by
  obtain ⟨inPartial, number, line, column, carets, message⟩ := p
  rw [drawing]
  dsimp only
  rw [hdigits.of_number]
  cases inPartial with
  | none => rw [Option.elim_none]
  | some name => rw [Option.elim_some]

/-- An error is shown at the part of its source that it marks. -/
theorem Diagram.ofError_of_marks {columns : List Char → Nat} (hdigits : CountsDigits columns)
    {finding : Finding} {before marked behind : List Char}
    (h : finding.Marks before marked behind) (hne : marked ++ behind ≠ []) :
    let number := toString (before.count '\n' + 1)
    let gutter := row ' ' number.length
    let line := String.ofList (behindNewline before ++ uptoNewline (marked ++ behind))
    let origin := finding.inPartial.elim "" fun name => "\n  --> partial `" ++ name ++ "`"
    ofError columns (.flawed finding) =
      origin ++ "\n " ++ gutter ++ " |\n " ++ number ++ " | " ++ line ++ "\n " ++ gutter ++ " | " ++
        row ' ' (columns (behindNewline before)) ++ row '^' (max 1 (columns marked)) ++ " " ++
        finding.flaw.fault.message ++ "\n" := by
  rw [ofError, drawing_eq hdigits, picture_eq h hne]

/-! ## Errors of a session -/

/-- The answer to a source that cannot be compiled. -/
theorem Session.failed_mem_of_compile {σ : Type} (host : Host σ) {delimiters : Delimiters}
    {limit : Nat} {init : σ} {name source : String} {e : Error}
    (h : ((Session.start delimiters limit init).engine.compile source).map Template.source =
      .error e) :
    (⟨.failed e, [], []⟩ : Reply) ∈
      ((Session.start delimiters limit init).answerAll host [.compile name source]).1 := by
  have hcompile : (Session.start delimiters limit init).engine.compile source = .error e := by
    cases hcases : (Session.start delimiters limit init).engine.compile source with
    | ok t =>
      rw [hcases] at h
      cases h
    | error found =>
      rw [hcases] at h
      cases h
      rfl
  simp [Session.answerAll, Session.answer, Session.reply, hcompile]

/-- Every error of a session that points into a source is shown at its place.  The span marks a
part of the source and does not begin at the end of it.  The number of the line counts the newlines
before the place, the line is the one that holds the place, without its newline, and the gutters
are as wide as the number.  The carets stand behind as many columns as there are on the line before
the place, and are as many as the marked part has columns, but at least one.  It is so in a terminal
and wherever else digits have one column each. -/
theorem Session.pretty_of_flawed {σ : Type} (host : Host σ) (delimiters : Delimiters) (limit : Nat)
    (init : σ) (history : List Request) :
    ∀ reply ∈ ((Session.start delimiters limit init).answerAll host history).1, ∀ finding,
      reply.answer.error? = some (.flawed finding) →
      ∃ before marked behind, finding.Marks before marked behind ∧ marked ++ behind ≠ [] ∧
        let number := toString (before.count '\n' + 1)
        let gutter := Diagram.row ' ' number.length
        let line := String.ofList (behindNewline before ++ uptoNewline (marked ++ behind))
        let origin := finding.inPartial.elim "" fun name => "\n  --> partial `" ++ name ++ "`"
        let diagram := fun columns : List Char → Nat =>
          origin ++ "\n " ++ gutter ++ " |\n " ++ number ++ " | " ++ line ++
            "\n " ++ gutter ++ " | " ++ Diagram.row ' ' (columns (behindNewline before)) ++
            Diagram.row '^' (max 1 (columns marked)) ++ " " ++
            finding.flaw.fault.message ++ "\n"
        (Error.flawed finding).pretty = diagram width ∧
          ∀ columns, Diagram.CountsDigits columns →
            Diagram.ofError columns (.flawed finding) = diagram columns := by
  intro reply hreply finding hfinding
  have hplace : finding.HasPlace :=
    (Session.represents_start delimiters limit init).invariant_answerAll Error.invariant_hasPlace
      host history reply hreply _ hfinding
  obtain ⟨before, marked, behind, hmarks, hne⟩ := hplace.exists_marks
  exact ⟨before, marked, behind, hmarks, hne,
    Diagram.ofError_of_marks countsDigits_width hmarks hne,
    fun _ hdigits => Diagram.ofError_of_marks hdigits hmarks hne⟩

/-- A section that is not closed, on the second line of a source, is shown behind the columns of the
letters before it; each of these has one column, but the second letter has two bytes. -/
theorem Session.pretty_of_flawed_second_line :
    let host : Host Unit := ⟨fun _ _ s => ("", s)⟩
    let source := "é\n é\x7b\x7b#ä\x7d\x7d\n"
    let history : List Request := [.compile "t" source]
    let finding : Finding := ⟨⟨.unclosedSection "ä", ⟨6, 13⟩⟩, source, none⟩
    let replies := ((Session.start .standard 64 ()).answerAll host history).1
    (∃ reply ∈ replies, reply.answer.error? = some (.flawed finding) ∧
      ∃ before marked behind, finding.Marks before marked behind ∧ marked ++ behind ≠ [] ∧
        let number := toString (before.count '\n' + 1)
        let gutter := Diagram.row ' ' number.length
        let line := String.ofList (behindNewline before ++ uptoNewline (marked ++ behind))
        let origin := finding.inPartial.elim "" fun name => "\n  --> partial `" ++ name ++ "`"
        let diagram := fun columns : List Char → Nat =>
          origin ++ "\n " ++ gutter ++ " |\n " ++ number ++ " | " ++ line ++
            "\n " ++ gutter ++ " | " ++ Diagram.row ' ' (columns (behindNewline before)) ++
            Diagram.row '^' (max 1 (columns marked)) ++ " " ++
            finding.flaw.fault.message ++ "\n"
        (Error.flawed finding).pretty = diagram width ∧
          Diagram.ofError List.length (.flawed finding) = diagram List.length) ∧
      (Error.flawed finding).pretty =
        "\n   |\n 2 |  é\x7b\x7b#ä\x7d\x7d\n   |   ^^^^^^ unclosed section `ä`\n" := by
  intro host source history finding replies
  have hmem : (⟨.failed (.flawed finding), [], []⟩ : Reply) ∈ replies :=
    Session.failed_mem_of_compile host (by decide +kernel)
  obtain ⟨before, marked, behind, hmarks, hne, hshown, hcounted⟩ :=
    Session.pretty_of_flawed host .standard 64 () history _ hmem finding rfl
  exact ⟨⟨_, hmem, rfl, before, marked, behind, hmarks, hne, hshown,
    hcounted _ Diagram.countsDigits_length⟩, by decide +kernel⟩

end Mustache
