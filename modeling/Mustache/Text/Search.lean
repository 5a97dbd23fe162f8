/-!
# Finding a marker

A search reads a text from left to right up to the first place where a marker
stands.

Main results:

- Theorem `breakOn_eq_some`: what is found puts the text together again.
-/

namespace Mustache.Text

/-- The text before and the text after the first occurrence of the marker. -/
def breakOn (marker : List Char) : List Char → Option (List Char × List Char)
  | [] => if marker.isEmpty then some ([], []) else none
  | c :: cs =>
    if marker.isPrefixOf (c :: cs) then
      some ([], (c :: cs).drop marker.length)
    else
      (breakOn marker cs).map fun found => (c :: found.1, found.2)

/-- A text is what stands before the marker, the marker, and what stands after it. -/
theorem breakOn_eq_some {marker cs before after : List Char}
    (h : breakOn marker cs = some (before, after)) : cs = before ++ (marker ++ after) := by
  induction cs generalizing before with
  | nil =>
    cases marker <;> simp_all [breakOn]
  | cons c cs ih =>
    rw [breakOn] at h
    split at h
    · rename_i hp
      obtain ⟨rest, hrest⟩ := List.isPrefixOf_iff_prefix.1 hp
      obtain ⟨rfl, rfl⟩ : [] = before ∧ (c :: cs).drop marker.length = after := by
        simpa using h
      rw [← hrest]
      simp
    · obtain ⟨⟨b, a⟩, hb, hab⟩ := Option.map_eq_some_iff.1 h
      obtain ⟨rfl, rfl⟩ : c :: b = before ∧ a = after := by simpa using hab
      rw [ih hb]
      rfl

/-- A search finds a marker behind characters that are not its first one. -/
theorem breakOn_append_of_not_mem {d : Char} {ds before : List Char} (h : d ∉ before)
    (after : List Char) :
    breakOn (d :: ds) (before ++ (d :: ds ++ after)) = some (before, after) := by
  induction before with
  | nil =>
    have hprefix : (d :: ds).isPrefixOf (d :: (ds ++ after)) = true := by
      rw [List.isPrefixOf_iff_prefix]
      exact ⟨after, rfl⟩
    rw [List.nil_append, List.cons_append, breakOn, if_pos hprefix]
    simp
  | cons c before ih =>
    have hno : ¬ (d :: ds).isPrefixOf (c :: (before ++ (d :: ds ++ after))) = true := by
      rw [List.isPrefixOf_iff_prefix]
      intro hprefix
      exact h ((List.cons_prefix_cons.1 hprefix).1 ▸ List.mem_cons_self)
    rw [List.cons_append, breakOn, if_neg hno, ih fun hmem => h (List.mem_cons_of_mem _ hmem)]
    rfl

end Mustache.Text
