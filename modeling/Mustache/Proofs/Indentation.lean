import Mathlib.Data.List.DropRight
import Mustache.Proofs.Occurrence
import Mustache.Template

/-!
# Indented text

An indent is put in front of the first character of every line.  It consists of
blanks of one line, so it makes no new line, and no marker stands in it or
reaches into it: a search in the indented text finds what a search in the text
finds.

Main results:

- Theorem `Text.lines_indentLines`: indenting a text puts the indent in front of each
  of its lines, and makes no other line.
- Theorem `Text.breakOn_indentFrom`: a marker is found where it stood before.
- Theorem `Text.absent_indentLines`: a marker that does not occur does not occur after
  indenting.
- Theorem `Text.trim_afterNewlines`: trimming commutes with indenting, and indenting
  changes no words.
-/

namespace Mustache

namespace Text

/-! ## Lines of a text -/

/-- Puts a text in front of the first of some lines; where there is none, it is a line itself. -/
def onFirstLine (x : List Char) : List (List Char) → List (List Char)
  | [] => [x]
  | line :: rest => (x ++ line) :: rest

/-- The lines of a text, each with the newline that ends it. -/
def lines : List Char → List (List Char)
  | [] => []
  | c :: cs => if c = '\n' then [c] :: lines cs else onFirstLine [c] (lines cs)

theorem flatten_onFirstLine (x : List Char) (ls : List (List Char)) :
    (onFirstLine x ls).flatten = x ++ ls.flatten := by
  cases ls <;> simp [onFirstLine]

/-- The lines of a text, one after the other, are the text. -/
theorem flatten_lines (cs : List Char) : (lines cs).flatten = cs := by
  induction cs with
  | nil => rfl
  | cons c cs ih =>
    rw [lines]
    split
    · simp [ih]
    · simp [flatten_onFirstLine, ih]

/-- Characters without a newline belong to the first line of what follows them. -/
theorem lines_append_of_newline_not_mem {x : List Char} (hne : x ≠ []) (hx : '\n' ∉ x)
    (cs : List Char) : lines (x ++ cs) = onFirstLine x (lines cs) := by
  induction x with
  | nil => exact absurd rfl hne
  | cons c x ih =>
    have hc : c ≠ '\n' := fun h => hx (h ▸ List.mem_cons_self)
    rw [List.cons_append, lines, if_neg hc]
    by_cases hempty : x = []
    · rw [hempty, List.nil_append]
    · rw [ih hempty fun h => hx (List.mem_cons_of_mem _ h)]
      cases lines cs <;> simp [onFirstLine]

/-! ## Indents -/

/-- Blanks that stay on one line. -/
structure IsIndent (w : List Char) : Prop where
  blank : AllBlank w
  newline : '\n' ∉ w

/-- A text that has a character, and no blank. -/
structure IsSolid (m : List Char) : Prop where
  ne_nil : m ≠ []
  solid : ∀ c ∈ m, isBlank c = false

theorem IsIndent.append {v w : List Char} (hv : IsIndent v) (hw : IsIndent w) :
    IsIndent (v ++ w) := by
  constructor
  · intro c hc
    rcases List.mem_append.1 hc with hc | hc
    · exact hv.blank c hc
    · exact hw.blank c hc
  · simp [hv.newline, hw.newline]

/-- A character that is no blank is no newline. -/
theorem beq_newline_of_not_isBlank {c : Char} (h : isBlank c = false) : (c == '\n') = false := by
  by_contra hnewline
  have hc : c = '\n' := by simpa using hnewline
  rw [hc] at h
  exact absurd h (by decide)

/-- A solid text has no newline. -/
theorem IsSolid.newline_not_mem {m : List Char} (hm : IsSolid m) : '\n' ∉ m := by
  intro h
  have hnewline := beq_newline_of_not_isBlank (hm.solid '\n' h)
  simp at hnewline

/-- The indent, if a line begins. -/
def lead (w : List Char) (atLineStart : Bool) : List Char :=
  if atLineStart then w else []

@[simp]
theorem lead_true (w : List Char) : lead w true = w :=
  rfl

@[simp]
theorem lead_false (w : List Char) : lead w false = [] :=
  rfl

/-- The indent behind a newline, or nothing, consists of blanks. -/
theorem allBlank_lead {w : List Char} (hw : AllBlank w) (atLineStart : Bool) :
    AllBlank (lead w atLineStart) := by
  cases atLineStart with
  | false => simp [AllBlank]
  | true => exact hw

/-- The indent is put in front of a character and then behind the newlines among the others. -/
theorem indentFrom_cons (w : List Char) (atLineStart : Bool) (c : Char) (cs : List Char) :
    Template.indentFrom w atLineStart (c :: cs) =
      lead w atLineStart ++ c :: Template.indentFrom w (c == '\n') cs :=
  rfl

/-- A text with the indent behind each newline, also behind one at its end. -/
def afterNewlines (w : List Char) : List Char → List Char
  | [] => []
  | c :: cs => c :: (lead w (c == '\n') ++ afterNewlines w cs)

theorem afterNewlines_append (w xs ys : List Char) :
    afterNewlines w (xs ++ ys) = afterNewlines w xs ++ afterNewlines w ys := by
  induction xs with
  | nil => rfl
  | cons c xs ih => simp [afterNewlines, ih]

theorem indentFrom_of_newline_not_mem (w : List Char) {x : List Char} (hx : '\n' ∉ x)
    (cs : List Char) :
    Template.indentFrom w false (x ++ cs) = x ++ Template.indentFrom w false cs := by
  induction x with
  | nil => rfl
  | cons c x ih =>
    have hc : (c == '\n') = false := by
      simpa using fun heq : c = '\n' => hx (heq ▸ List.mem_cons_self)
    rw [List.cons_append, indentFrom_cons, hc, ih fun hmem => hx (List.mem_cons_of_mem _ hmem)]
    rfl

/-- The indent of the first line stands in front of everything. -/
theorem indentFrom_eq_lead_append (w : List Char) (atLineStart : Bool) {cs : List Char}
    (h : cs ≠ []) :
    Template.indentFrom w atLineStart cs =
      lead w atLineStart ++ Template.indentFrom w false cs := by
  cases cs with
  | nil => exact absurd rfl h
  | cons c cs => rfl

/-- Up to a solid text, the indent is put in front and behind newlines; after it, no line begins. -/
theorem indentFrom_append_solid (w : List Char) {m : List Char} (hm : IsSolid m)
    (atLineStart : Bool) (xs ys : List Char) :
    Template.indentFrom w atLineStart (xs ++ (m ++ ys)) =
      lead w atLineStart ++ (afterNewlines w xs ++ (m ++ Template.indentFrom w false ys)) := by
  induction xs generalizing atLineStart with
  | nil =>
    have hne : m ++ ys ≠ [] := by simp [hm.ne_nil]
    rw [List.nil_append, indentFrom_eq_lead_append w _ hne,
      indentFrom_of_newline_not_mem w hm.newline_not_mem]
    rfl
  | cons c xs ih =>
    rw [List.cons_append, indentFrom_cons, ih]
    simp [afterNewlines]

/-! ## Lines of an indented text -/

/-- Every line but the first one with an indent. -/
def indentRest (w : List Char) : List (List Char) → List (List Char)
  | [] => []
  | line :: rest => line :: rest.map fun l => w ++ l

/-- Where no line begins, the indent is put in front of every line but the first one. -/
theorem lines_indentFrom_false {w : List Char} (hw : '\n' ∉ w) (cs : List Char) :
    lines (Template.indentFrom w false cs) = indentRest w (lines cs) := by
  induction cs with
  | nil => rfl
  | cons c cs ih =>
    rw [indentFrom_cons, lead_false, List.nil_append, lines]
    by_cases hc : c = '\n'
    · have hflag : (c == '\n') = true := by simp [hc]
      have hlines : lines (Template.indentFrom w true cs) = (lines cs).map fun l => w ++ l := by
        by_cases hcs : cs = []
        · rw [hcs]
          rfl
        · rw [indentFrom_eq_lead_append w true hcs, lead_true]
          by_cases hempty : w = []
          · simp [hempty]
          · rw [lines_append_of_newline_not_mem hempty hw, ih]
            have hne : lines cs ≠ [] := fun h => hcs (by rw [← flatten_lines cs, h]; rfl)
            cases hfirst : lines cs with
            | nil => exact absurd hfirst hne
            | cons first rest => rfl
      rw [if_pos hc, hflag, hlines, lines, if_pos hc, indentRest]
    · have hflag : (c == '\n') = false := by simp [hc]
      rw [if_neg hc, hflag, ih, lines, if_neg hc]
      cases lines cs <;> rfl

/-- Indenting a text puts the indent in front of each of its lines, and makes no other line. -/
theorem lines_indentLines {w : List Char} (hw : '\n' ∉ w) (cs : List Char) :
    lines (Template.indentLines w cs) = (lines cs).map fun l => w ++ l := by
  have hnewline : lines ('\n' :: Template.indentLines w cs) =
      indentRest w (lines ('\n' :: cs)) := lines_indentFrom_false hw ('\n' :: cs)
  rw [lines, if_pos rfl, lines, if_pos rfl] at hnewline
  exact (List.cons.inj hnewline).2

/-! ## Markers in an indented text -/

/-- Blanks in front of a text move what a search for a solid text finds. -/
theorem breakOn_append_of_allBlank {u m : List Char} (hu : AllBlank u) (hm : IsSolid m)
    (cs : List Char) :
    breakOn m (u ++ cs) = (breakOn m cs).map fun p => (u ++ p.1, p.2) := by
  induction u with
  | nil => simp
  | cons c u ih =>
    obtain ⟨d, ds, rfl⟩ := List.exists_cons_of_ne_nil hm.ne_nil
    have hno : ¬ (d :: ds).isPrefixOf (c :: (u ++ cs)) = true := by
      rw [List.isPrefixOf_iff_prefix]
      intro hprefix
      have hblank := hu c List.mem_cons_self
      rw [← (List.cons_prefix_cons.1 hprefix).1, hm.solid d List.mem_cons_self] at hblank
      cases hblank
    rw [List.cons_append, breakOn, if_neg hno, ih fun e he => hu e (List.mem_cons_of_mem _ he),
      Option.map_map]
    rfl

/-- A solid text stands at the beginning of the indented text if it stood there before. -/
theorem isPrefixOf_indentFrom (w : List Char) {m : List Char}
    (hm : ∀ c ∈ m, isBlank c = false) (cs : List Char) :
    m.isPrefixOf (Template.indentFrom w false cs) = m.isPrefixOf cs := by
  induction m generalizing cs with
  | nil => simp
  | cons d m ih =>
    cases cs with
    | nil => rfl
    | cons c cs =>
      rw [indentFrom_cons, lead_false, List.nil_append, List.isPrefixOf_cons_cons,
        List.isPrefixOf_cons_cons]
      by_cases hd : d = c
      · have hc := beq_newline_of_not_isBlank (hm d List.mem_cons_self)
        rw [hd] at hc
        rw [hc, ih fun e he => hm e (List.mem_cons_of_mem _ he)]
      · have hne : (d == c) = false := by simpa using hd
        rw [hne, Bool.false_and, Bool.false_and]

/-- A marker is found where it stood before, between the indented parts of the text. -/
theorem breakOn_indentFrom {w m : List Char} (hw : IsIndent w) (hm : IsSolid m)
    (atLineStart : Bool) (cs : List Char) :
    breakOn m (Template.indentFrom w atLineStart cs) = (breakOn m cs).map fun p =>
      (lead w atLineStart ++ afterNewlines w p.1, Template.indentFrom w false p.2) := by
  induction cs generalizing atLineStart with
  | nil =>
    have hempty : m.isEmpty = false := by simp [hm.ne_nil]
    rw [Template.indentFrom, breakOn, hempty]
    rfl
  | cons c cs ih =>
    have hsame := isPrefixOf_indentFrom w hm.solid (c :: cs)
    rw [indentFrom_cons, lead_false, List.nil_append] at hsame
    rw [indentFrom_cons, breakOn_append_of_allBlank (allBlank_lead hw.blank _) hm, breakOn,
      hsame, breakOn]
    split
    · rename_i hprefix
      obtain ⟨rest, hrest⟩ := List.isPrefixOf_iff_prefix.1 hprefix
      have hindent : c :: Template.indentFrom w (c == '\n') cs =
          m ++ Template.indentFrom w false rest := by
        have hboth := indentFrom_append_solid w hm false [] rest
        rw [List.nil_append, hrest] at hboth
        simpa [indentFrom_cons, afterNewlines] using hboth
      rw [hindent, ← hrest]
      simp [afterNewlines]
    · rw [ih]
      simp only [Option.map_map]
      congr 1

/-- A marker that does not occur in a text does not occur in the indented text. -/
theorem absent_indentLines {w m : List Char} (hw : IsIndent w) (hm : IsSolid m) {cs : List Char}
    (h : ¬ m <:+: cs) : ¬ m <:+: Template.indentLines w cs := by
  rw [← breakOn_eq_none_iff] at h ⊢
  rw [Template.indentLines, breakOn_indentFrom hw hm, h]
  rfl

/-! ## Blanks in an indented text -/

variable {w : List Char}

/-- Indenting changes no words. -/
theorem words_afterNewlines (hw : AllBlank w) (cs : List Char) :
    words (afterNewlines w cs) = words cs := by
  induction cs with
  | nil => rfl
  | cons c cs ih =>
    by_cases hc : isBlank c = true
    · rw [afterNewlines, words, if_pos hc, words, if_pos hc,
        words_append_of_allBlank (allBlank_lead hw _), ih]
    · have hhead : (afterNewlines w cs).head? = cs.head? := by
        cases cs <;> rfl
      have hnewline := beq_newline_of_not_isBlank (by simpa using hc)
      rw [afterNewlines, hnewline, lead_false, List.nil_append, words, if_neg hc, words, if_neg hc,
        hhead, ih]

/-- Trimming at the beginning commutes with indenting. -/
theorem trimLeft_afterNewlines (hw : AllBlank w) (cs : List Char) :
    trimLeft (afterNewlines w cs) = afterNewlines w (trimLeft cs) := by
  induction cs with
  | nil => rfl
  | cons c cs ih =>
    unfold trimLeft at ih ⊢
    by_cases hc : isBlank c = true
    · rw [afterNewlines, List.dropWhile_cons_of_pos hc, List.dropWhile_cons_of_pos hc,
        List.dropWhile_append_of_pos (allBlank_lead hw _), ih]
    · have hnewline := beq_newline_of_not_isBlank (by simpa using hc)
      rw [afterNewlines, List.dropWhile_cons_of_neg hc, List.dropWhile_cons_of_neg hc,
        afterNewlines]

/-- Blanks at the end of a text are trimmed with it. -/
theorem trimRight_append_of_allBlank {blanks : List Char} (h : AllBlank blanks) (cs : List Char) :
    trimRight (cs ++ blanks) = trimRight cs := by
  unfold trimRight
  rw [List.reverse_append, List.dropWhile_append_of_pos fun c hc => h c (List.mem_reverse.1 hc)]

/-- Trimming at the end commutes with indenting. -/
theorem trimRight_afterNewlines (hw : AllBlank w) (cs : List Char) :
    trimRight (afterNewlines w cs) = afterNewlines w (trimRight cs) := by
  induction cs using List.reverseRecOn with
  | nil => rfl
  | append_singleton cs c ih =>
    by_cases hc : isBlank c = true
    · have hlast : AllBlank (afterNewlines w [c]) := by
        intro d hd
        rcases List.mem_cons.1 hd with rfl | hd
        · exact hc
        · rw [afterNewlines, List.append_nil] at hd
          exact allBlank_lead hw _ d hd
      have hblank : AllBlank [c] := by
        intro d hd
        rw [List.mem_singleton.1 hd]
        exact hc
      rw [afterNewlines_append, trimRight_append_of_allBlank hlast,
        trimRight_append_of_allBlank hblank, ih]
    · have hnewline := beq_newline_of_not_isBlank (by simpa using hc)
      have hlast : afterNewlines w (cs ++ [c]) = afterNewlines w cs ++ [c] := by
        rw [afterNewlines_append, afterNewlines, hnewline]
        rfl
      have hkeep : ∀ xs, trimRight (xs ++ [c]) = xs ++ [c] := by
        intro xs
        exact List.rdropWhile_concat_neg isBlank xs c hc
      rw [hlast, hkeep, hkeep, hlast]

/-- Trimming commutes with indenting. -/
theorem trim_afterNewlines (hw : AllBlank w) (cs : List Char) :
    trim (afterNewlines w cs) = afterNewlines w (trim cs) := by
  rw [trim, trimLeft_afterNewlines hw, trimRight_afterNewlines hw, trim]

/-- Different texts are different after indenting. -/
theorem afterNewlines_injective (w : List Char) : Function.Injective (afterNewlines w) := by
  intro xs ys h
  induction xs generalizing ys with
  | nil =>
    cases ys with
    | nil => rfl
    | cons d ys => cases h
  | cons c xs ih =>
    cases ys with
    | nil => cases h
    | cons d ys =>
      obtain ⟨rfl, hrest⟩ := List.cons.inj h
      rw [ih (List.append_cancel_left hrest)]

end Text

/-- A marker is a solid text. -/
theorem Marker.isSolid (m : Marker) : Text.IsSolid m.chars :=
  ⟨m.usable.1, fun c hc => (m.usable.2 c hc).2⟩

end Mustache
