import Mathlib.Data.List.Infix
import Mustache.Delimiters
import Mustache.Text.Search

/-!
# Occurrences of markers and words

The places that a reader of templates looks for are described without a search:
the first place where a marker stands, a text without the marker, and a body in
which two markers stand between blanks.

Main results:

- Theorem `Text.breakOn_eq_some_iff`: a search finds the first occurrence.
- Theorem `Text.breakOn_eq_none_iff`: a search finds nothing where the marker
  does not occur.
- Theorem `Delimiters.ofBody?_eq_some_iff`: a body names a pair exactly if the two
  markers stand in it between blanks.
-/

namespace Mustache

/-! ## Markers in a text -/

namespace Text

variable {marker text before after : List Char}

/-- The marker stands between `before` and `after`, and at no earlier place of the text. -/
structure FirstAt (marker text before after : List Char) : Prop where
  eq : text = before ++ (marker ++ after)
  first : ∀ b a, text = b ++ (marker ++ a) → before.length ≤ b.length

/-- There is only one first occurrence. -/
theorem FirstAt.unique {before' after' : List Char} (h : FirstAt marker text before after)
    (h' : FirstAt marker text before' after') : before = before' ∧ after = after' := by
  have hlength : before.length = before'.length :=
    Nat.le_antisymm (h.first _ _ h'.eq) (h'.first _ _ h.eq)
  obtain ⟨hbefore, hrest⟩ := List.append_inj (h.eq.symm.trans h'.eq) hlength
  exact ⟨hbefore, List.append_cancel_left hrest⟩

/-- A character in front, where no marker begins, moves the first occurrence. -/
theorem FirstAt.cons {c : Char} (hc : ¬ marker <+: c :: text)
    (h : FirstAt marker text before after) : FirstAt marker (c :: text) (c :: before) after := by
  refine ⟨congrArg (List.cons c) h.eq, ?_⟩
  intro b a hb
  cases b with
  | nil => exact absurd ⟨a, hb.symm⟩ hc
  | cons d b => exact Nat.succ_le_succ (h.first b a (List.cons.inj hb).2)

/-- What a search finds is the first occurrence. -/
theorem firstAt_of_breakOn (h : breakOn marker text = some (before, after)) :
    FirstAt marker text before after := by
  induction text generalizing before with
  | nil =>
    obtain ⟨hbefore, -⟩ := List.append_eq_nil_iff.1 (breakOn_eq_some h).symm
    refine ⟨breakOn_eq_some h, ?_⟩
    intro b a _
    rw [hbefore]
    exact Nat.zero_le _
  | cons c cs ih =>
    have heq := breakOn_eq_some h
    rw [breakOn] at h
    split at h
    · obtain ⟨rfl, -⟩ : [] = before ∧ _ = after := by simpa using h
      exact ⟨heq, fun _ _ _ => Nat.zero_le _⟩
    · rename_i hc
      obtain ⟨⟨b, a⟩, hb, hab⟩ := Option.map_eq_some_iff.1 h
      obtain ⟨rfl, rfl⟩ : c :: b = before ∧ a = after := by simpa using hab
      exact (ih hb).cons fun hprefix => hc (List.isPrefixOf_iff_prefix.2 hprefix)

/-- Where a marker occurs, a search finds something. -/
theorem exists_breakOn (h : marker <:+: text) : ∃ found, breakOn marker text = some found := by
  induction text with
  | nil =>
    rw [List.infix_nil.1 h]
    exact ⟨([], []), rfl⟩
  | cons c cs ih =>
    rw [breakOn]
    split
    · exact ⟨_, rfl⟩
    · rename_i hc
      rcases List.infix_cons_iff.1 h with hprefix | hoccurs
      · exact absurd (List.isPrefixOf_iff_prefix.2 hprefix) hc
      · obtain ⟨found, hfound⟩ := ih hoccurs
        exact ⟨_, congrArg (Option.map _) hfound⟩

/-- A marker with a first occurrence occurs. -/
theorem FirstAt.occurs (h : FirstAt marker text before after) : marker <:+: text :=
  ⟨before, after, by rw [h.eq, List.append_assoc]⟩

/-- A search finds nothing exactly where the marker does not occur. -/
theorem breakOn_eq_none_iff : breakOn marker text = none ↔ ¬ marker <:+: text := by
  constructor
  · intro h hoccurs
    obtain ⟨found, hfound⟩ := exists_breakOn hoccurs
    rw [h] at hfound
    cases hfound
  · intro h
    cases hfound : breakOn marker text with
    | none => rfl
    | some found => exact absurd (firstAt_of_breakOn hfound).occurs h

/-- A search finds a marker exactly at its first occurrence. -/
theorem breakOn_eq_some_iff :
    breakOn marker text = some (before, after) ↔ FirstAt marker text before after := by
  refine ⟨firstAt_of_breakOn, ?_⟩
  intro h
  obtain ⟨⟨b, a⟩, hfound⟩ := exists_breakOn h.occurs
  obtain ⟨rfl, rfl⟩ := h.unique (firstAt_of_breakOn hfound)
  exact hfound

/-! ## Words between blanks -/

/-- The text consists of blanks. -/
def AllBlank (cs : List Char) : Prop :=
  ∀ c ∈ cs, isBlank c = true

instance (cs : List Char) : Decidable (AllBlank cs) :=
  List.decidableBAll _ cs

/-- The text is empty or begins with a blank. -/
def EndsWord (cs : List Char) : Prop :=
  cs.head?.all isBlank = true

/-- A word ends where blanks follow. -/
theorem endsWord_append {blanks : List Char} (hne : blanks ≠ []) (h : AllBlank blanks)
    (cs : List Char) : EndsWord (blanks ++ cs) := by
  cases blanks with
  | nil => exact absurd rfl hne
  | cons c blanks => exact h c List.mem_cons_self

theorem endsWord_of_allBlank {blanks : List Char} (h : AllBlank blanks) :
    EndsWord blanks := by
  cases blanks with
  | nil => rfl
  | cons c blanks => exact h c List.mem_cons_self

/-- Blanks in front of a text do not change its words. -/
theorem words_append_of_allBlank {blanks : List Char} (h : AllBlank blanks) (cs : List Char) :
    words (blanks ++ cs) = words cs := by
  induction blanks with
  | nil => rfl
  | cons c blanks ih =>
    rw [List.cons_append, words, if_pos (h c List.mem_cons_self)]
    exact ih fun d hd => h d (List.mem_cons_of_mem _ hd)

/-- A run of characters other than blanks is a word if it is not followed by another one. -/
theorem words_append_of_endsWord {word rest : List Char} (hne : word ≠ [])
    (hword : ∀ c ∈ word, isBlank c = false) (hrest : EndsWord rest) :
    words (word ++ rest) = word :: words rest := by
  induction word with
  | nil => exact absurd rfl hne
  | cons c cs ih =>
    have hc : ¬ isBlank c = true := by simp [hword c List.mem_cons_self]
    rw [List.cons_append, words, if_neg hc]
    cases cs with
    | nil => exact if_pos hrest
    | cons d ds =>
      have hd : isBlank d = false := hword d (List.mem_cons_of_mem _ List.mem_cons_self)
      rw [if_neg (by simp [hd]), ih (by simp) fun e he => hword e (List.mem_cons_of_mem _ he)]

/-- A text without words consists of blanks. -/
theorem allBlank_of_words_eq_nil {cs : List Char} (h : words cs = []) : AllBlank cs := by
  induction cs with
  | nil => simp [AllBlank]
  | cons c cs ih =>
    rw [words] at h
    split at h
    · rename_i hc
      intro d hd
      rcases List.mem_cons.1 hd with rfl | hd
      · exact hc
      · exact ih h d hd
    · split at h
      · cases h
      · split at h <;> cases h

/-- The first word stands behind blanks, and is followed by the other words. -/
theorem exists_of_words_eq_cons {cs word : List Char} {others : List (List Char)}
    (h : words cs = word :: others) :
    ∃ blanks rest, cs = blanks ++ (word ++ rest) ∧ AllBlank blanks ∧ EndsWord rest ∧
      words rest = others := by
  induction cs generalizing word others with
  | nil => cases h
  | cons c cs ih =>
    rw [words] at h
    split at h
    · rename_i hc
      obtain ⟨blanks, rest, heq, hblanks, hrest⟩ := ih h
      refine ⟨c :: blanks, rest, congrArg (List.cons c) heq, ?_, hrest⟩
      intro d hd
      rcases List.mem_cons.1 hd with rfl | hd
      · exact hc
      · exact hblanks d hd
    · split at h
      · rename_i hhead
        obtain ⟨rfl, rfl⟩ := List.cons.inj h
        exact ⟨[], cs, rfl, by simp [AllBlank], hhead, rfl⟩
      · rename_i hhead
        split at h
        · rename_i hnone
          exact absurd (by
            cases cs with
            | nil => rfl
            | cons d ds => exact allBlank_of_words_eq_nil hnone d List.mem_cons_self) hhead
        · rename_i w ws hwords
          obtain ⟨rfl, rfl⟩ := List.cons.inj h
          obtain ⟨blanks, rest, heq, hblanks, hrest⟩ := ih hwords
          cases blanks with
          | nil => exact ⟨[], rest, congrArg (List.cons c) heq, hblanks, hrest⟩
          | cons d blanks =>
            refine absurd ?_ hhead
            rw [heq]
            exact hblanks d List.mem_cons_self

end Text

/-! ## Bodies of set delimiter tags -/

namespace Delimiters

/-- The body consists of the two markers of the pair, with blanks between them and perhaps around
them. -/
def NamedBy (body : List Char) (pair : Delimiters) : Prop :=
  ∃ b₀ b₁ b₂, body = b₀ ++ (pair.left.chars ++ (b₁ ++ (pair.right.chars ++ b₂))) ∧
    b₁ ≠ [] ∧ Text.AllBlank b₀ ∧ Text.AllBlank b₁ ∧ Text.AllBlank b₂

/-- The words of a body that names a pair are the markers of the pair. -/
theorem NamedBy.words {body : List Char} {pair : Delimiters} (h : NamedBy body pair) :
    Text.words body = [pair.left.chars, pair.right.chars] := by
  obtain ⟨b₀, b₁, b₂, rfl, hne, h₀, h₁, h₂⟩ := h
  have hleft : ∀ c ∈ pair.left.chars, Text.isBlank c = false := fun c hc =>
    (pair.left.usable.2 c hc).2
  have hright : ∀ c ∈ pair.right.chars, Text.isBlank c = false := fun c hc =>
    (pair.right.usable.2 c hc).2
  rw [Text.words_append_of_allBlank h₀,
    Text.words_append_of_endsWord pair.left.usable.1 hleft (Text.endsWord_append hne h₁ _),
    Text.words_append_of_allBlank h₁,
    Text.words_append_of_endsWord pair.right.usable.1 hright (Text.endsWord_of_allBlank h₂)]
  have hrest := Text.words_append_of_allBlank h₂ []
  rw [List.append_nil] at hrest
  rw [hrest]
  rfl

/-- A body of two words holds them between blanks. -/
theorem namedBy_of_words {body : List Char} {pair : Delimiters}
    (h : Text.words body = [pair.left.chars, pair.right.chars]) : NamedBy body pair := by
  obtain ⟨b₀, rest, rfl, h₀, hends, hrest⟩ := Text.exists_of_words_eq_cons h
  obtain ⟨b₁, b₂, rfl, h₁, -, hlast⟩ := Text.exists_of_words_eq_cons hrest
  refine ⟨b₀, b₁, b₂, rfl, ?_, h₀, h₁, Text.allBlank_of_words_eq_nil hlast⟩
  -- Without blanks between them, the second marker would continue the first one.
  rintro rfl
  obtain ⟨c, cs, hchars, hc⟩ := pair.right.exists_cons
  rw [hchars] at hends
  have hblank : Text.isBlank c = true := hends
  rw [hc] at hblank
  cases hblank

/-- A body names a pair exactly if it consists of the two markers between blanks. -/
theorem ofBody?_eq_some_iff {body : List Char} {pair : Delimiters} :
    ofBody? body = some pair ↔ NamedBy body pair := by
  constructor
  · intro h
    unfold ofBody? at h
    split at h
    · rename_i left right hwords
      obtain ⟨rfl, rfl⟩ := ofMarkers?_eq_some_iff.1 h
      exact namedBy_of_words hwords
    · cases h
  · intro h
    unfold ofBody?
    rw [h.words]
    exact ofMarkers?_eq_some_iff.2 ⟨rfl, rfl⟩

end Delimiters

end Mustache
