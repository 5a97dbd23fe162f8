import Mustache.Proofs.Placement

/-!
# Character boundaries

An offset into a text counts bytes, so it may fall inside a character.  It is a boundary
if the first byte of a character stands there, or the text ends.  Cutting a text is
defined only between two boundaries, of which the second is not before the first.

Main results:

- Theorem `Text.isBoundary_iff`: boundaries are the offsets at which a text can be put
  apart.
- Theorem `Text.isPrefixOf_encode`: bytes that agree up to the end of a text agree in
  whole characters.
- Theorem `Text.cut?_eq_some_iff`: a cut is defined exactly where a piece stands.
-/

namespace Mustache

namespace Text

/-! ## Bytes of characters -/

/-- As many bytes as are counted. -/
theorem length_encode (cs : List Char) : (encode cs).length = byteLength cs := by
  induction cs with
  | nil => rfl
  | cons c cs ih =>
    rw [encode, List.flatMap_cons, List.length_append, String.length_utf8EncodeChar]
    exact congrArg (c.utf8Size + ·) ih

theorem encode_cons (c : Char) (cs : List Char) :
    encode (c :: cs) = String.utf8EncodeChar c ++ encode cs :=
  List.flatMap_cons

/-- In the bytes of a character, only the first one is a first byte. -/
theorem eq_zero_of_isFirst {c : Char} {rest : List UInt8} {n : Nat} {b : UInt8}
    (hn : n < c.utf8Size) (hb : (String.utf8EncodeChar c ++ rest)[n]? = some b) :
    b.IsUTF8FirstByte ↔ n = 0 := by
  have hlength : n < (String.utf8EncodeChar c).length := by
    rwa [String.length_utf8EncodeChar]
  rw [List.getElem?_append_left hlength, List.getElem?_eq_getElem hlength] at hb
  rw [← Option.some.inj hb]
  exact UInt8.isUTF8FirstByte_getElem_utf8EncodeChar

/-- A character is known by its bytes, whatever follows them. -/
theorem eq_of_utf8EncodeChar_append {c d : Char} {xs ys : List UInt8}
    (h : String.utf8EncodeChar c ++ xs = String.utf8EncodeChar d ++ ys) : c = d := by
  have hdecode : ∀ (e : Char) (zs : List UInt8),
      (String.utf8EncodeChar e ++ zs).toByteArray.utf8DecodeChar? 0 = some e := by
    intro e zs
    rw [List.toByteArray_append]
    have hsingle : [e].utf8Encode = (String.utf8EncodeChar e).toByteArray := by
      simp [List.utf8Encode]
    rw [← hsingle]
    exact List.utf8DecodeChar?_utf8Encode_singleton_append
  have hc := hdecode c xs
  rw [h, hdecode d ys] at hc
  exact (Option.some.inj hc).symm

/-- Bytes that agree up to the end of a text agree in whole characters. -/
theorem isPrefixOf_encode (lit cs : List Char) :
    (encode lit).isPrefixOf (encode cs) = lit.isPrefixOf cs := by
  rw [Bool.eq_iff_iff, List.isPrefixOf_iff_prefix, List.isPrefixOf_iff_prefix]
  constructor
  · intro h
    induction lit generalizing cs with
    | nil => exact List.nil_prefix
    | cons c lit ih =>
      obtain ⟨rest, hrest⟩ := h
      rw [encode_cons, List.append_assoc] at hrest
      cases cs with
      | nil =>
        have hlength := congrArg List.length hrest
        have hsize := c.utf8Size_pos
        simp [String.length_utf8EncodeChar, encode] at hlength
        omega
      | cons d cs =>
        rw [encode_cons] at hrest
        obtain rfl := eq_of_utf8EncodeChar_append hrest
        rw [List.append_cancel_left_eq] at hrest
        exact List.cons_prefix_cons.2 ⟨rfl, ih cs ⟨rest, hrest⟩⟩
  · rintro ⟨rest, rfl⟩
    rw [encode_append]
    exact List.prefix_append _ _

/-- A byte of ASCII stands in the bytes of a character only if it is all of this character. -/
theorem getElem?_encode_eq_ascii_iff {a c : Char} (ha : a.utf8Size = 1) {cs : List Char} {n : Nat}
    (hn : n < c.utf8Size) : (encode (c :: cs))[n]? = some a.val.toUInt8 ↔ n = 0 ∧ c = a := by
  have hbytes := String.utf8EncodeChar_eq_singleton ha
  constructor
  · intro h
    rw [encode_cons] at h
    have hfirst : a.val.toUInt8.IsUTF8FirstByte := by
      have hget : (String.utf8EncodeChar a ++ [])[0]? = some a.val.toUInt8 := by
        rw [hbytes]
        rfl
      exact (eq_zero_of_isFirst a.utf8Size_pos hget).2 rfl
    obtain rfl := (eq_zero_of_isFirst hn h).1 hfirst
    refine ⟨rfl, ?_⟩
    cases hall : String.utf8EncodeChar c ++ encode cs with
    | nil => simp [hall] at h
    | cons b rest =>
      have hb : b = a.val.toUInt8 := by simpa [hall] using h
      have hsame : String.utf8EncodeChar c ++ encode cs = String.utf8EncodeChar a ++ rest := by
        rw [hall, hbytes, hb]
        rfl
      exact eq_of_utf8EncodeChar_append hsame
  · rintro ⟨rfl, rfl⟩
    rw [encode_cons, hbytes]
    rfl

/-! ## Boundaries -/

/-- The text ends at the offset, or the first byte of a character stands there. -/
def IsBoundary (cs : List Char) (n : Nat) : Prop :=
  n = byteLength cs ∨ ∃ b, (encode cs)[n]? = some b ∧ b.IsUTF8FirstByte

/-- At a boundary a text can be put apart. -/
theorem IsBoundary.exists_append {cs : List Char} {n : Nat} (h : IsBoundary cs n) :
    ∃ before after, cs = before ++ after ∧ n = byteLength before := by
  induction cs generalizing n with
  | nil =>
    rcases h with rfl | ⟨b, hb, -⟩
    · exact ⟨[], [], rfl, rfl⟩
    · simp [encode] at hb
  | cons c cs ih =>
    by_cases hn : n < c.utf8Size
    · have hzero : n = 0 := by
        rcases h with rfl | ⟨b, hb, hfirst⟩
        · rw [byteLength_cons] at hn
          omega
        · rw [encode_cons] at hb
          exact (eq_zero_of_isFirst hn hb).1 hfirst
      exact ⟨[], c :: cs, rfl, hzero⟩
    · have hrest : IsBoundary cs (n - c.utf8Size) := by
        rcases h with rfl | ⟨b, hb, hfirst⟩
        · exact .inl (by simp)
        · rw [encode_cons, List.getElem?_append_right
            (by rw [String.length_utf8EncodeChar]; omega), String.length_utf8EncodeChar] at hb
          exact .inr ⟨b, hb, hfirst⟩
      obtain ⟨before, after, rfl, hlength⟩ := ih hrest
      refine ⟨c :: before, after, rfl, ?_⟩
      rw [byteLength_cons]
      omega

/-- Between two pieces of a text there is a boundary. -/
theorem isBoundary_append (before after : List Char) :
    IsBoundary (before ++ after) (byteLength before) := by
  cases after with
  | nil => exact .inl (by simp)
  | cons c after =>
    right
    have hpos : 0 < (String.utf8EncodeChar c).length := by
      rw [String.length_utf8EncodeChar]
      exact c.utf8Size_pos
    refine ⟨(String.utf8EncodeChar c)[0], ?_, UInt8.isUTF8FirstByte_getElem_zero_utf8EncodeChar⟩
    rw [encode_append, List.getElem?_append_right (by rw [length_encode]), length_encode,
      Nat.sub_self, encode_cons, List.getElem?_append_left hpos, List.getElem?_eq_getElem hpos]

/-- Boundaries are the offsets at which a text can be put apart. -/
theorem isBoundary_iff {cs : List Char} {n : Nat} :
    IsBoundary cs n ↔ ∃ before after, cs = before ++ after ∧ n = byteLength before := by
  constructor
  · exact IsBoundary.exists_append
  · rintro ⟨before, after, rfl, rfl⟩
    exact isBoundary_append before after

/-- A boundary is not behind the end of the text. -/
theorem IsBoundary.le_byteLength {cs : List Char} {n : Nat} (h : IsBoundary cs n) :
    n ≤ byteLength cs := by
  obtain ⟨before, after, rfl, rfl⟩ := isBoundary_iff.1 h
  simp

/-- A boundary in the first of two texts. -/
theorem IsBoundary.left_of_append {xs ys : List Char} {n : Nat} (h : IsBoundary (xs ++ ys) n)
    (hle : n ≤ byteLength xs) : IsBoundary xs n := by
  by_cases hend : n = byteLength xs
  · exact .inl hend
  · rcases h with hlength | ⟨b, hb, hfirst⟩
    · rw [byteLength_append] at hlength
      omega
    · rw [encode_append, List.getElem?_append_left (by rw [length_encode]; omega)] at hb
      exact .inr ⟨b, hb, hfirst⟩

/-- A boundary in the second of two texts. -/
theorem IsBoundary.right_of_append {xs ys : List Char} {n : Nat} (h : IsBoundary (xs ++ ys) n)
    (hle : byteLength xs ≤ n) : IsBoundary ys (n - byteLength xs) := by
  rcases h with hlength | ⟨b, hb, hfirst⟩
  · rw [byteLength_append] at hlength
    exact .inl (by omega)
  · rw [encode_append, List.getElem?_append_right (by rwa [length_encode]), length_encode] at hb
    exact .inr ⟨b, hb, hfirst⟩

instance (cs : List Char) (n : Nat) : Decidable (IsBoundary cs n) :=
  inferInstanceAs (Decidable (_ ∨ _))

/-! ## Cuts -/

/-- The text between two offsets, if both are boundaries and the second is not before the first. -/
def cut? (start stop : Nat) (cs : List Char) : Option (List Char) :=
  if start ≤ stop ∧ IsBoundary cs start ∧ IsBoundary cs stop then some (slice start stop cs)
  else none

/-- A cut is defined exactly where a piece stands, and cuts this piece. -/
theorem cut?_eq_some_iff {start stop : Nat} {cs piece : List Char} :
    cut? start stop cs = some piece ↔ ∃ before after, cs = before ++ (piece ++ after) ∧
      start = byteLength before ∧ stop = byteLength (before ++ piece) := by
  constructor
  · intro h
    rw [cut?] at h
    split at h
    · rename_i hdefined
      obtain ⟨hle, hstart, hstop⟩ := hdefined
      obtain ⟨before, rest, hsplit, rfl⟩ := isBoundary_iff.1 hstart
      obtain ⟨upTo, after, rfl, rfl⟩ := isBoundary_iff.1 hstop
      obtain ⟨piece', rfl⟩ : before <+: upTo := by
        have hbefore : before <+: upTo ++ after := ⟨rest, hsplit.symm⟩
        rcases List.prefix_or_prefix_of_prefix hbefore (List.prefix_append upTo after)
          with hfits | ⟨more, rfl⟩
        · exact hfits
        · cases more with
          | nil => simp
          | cons c more =>
            have hsize := c.utf8Size_pos
            simp only [byteLength_append, byteLength_cons] at hle
            omega
      have hslice : slice (byteLength before) (byteLength (before ++ piece'))
          ((before ++ piece') ++ after) = piece' := by
        rw [byteLength_append, List.append_assoc, slice_append]
      rw [hslice] at h
      obtain rfl := Option.some.inj h
      exact ⟨before, after, by simp, rfl, rfl⟩
    · cases h
  · rintro ⟨before, after, rfl, rfl, rfl⟩
    have hdefined : byteLength before ≤ byteLength (before ++ piece) ∧
        IsBoundary (before ++ (piece ++ after)) (byteLength before) ∧
        IsBoundary (before ++ (piece ++ after)) (byteLength (before ++ piece)) := by
      refine ⟨by simp, isBoundary_append before (piece ++ after), ?_⟩
      rw [← List.append_assoc]
      exact isBoundary_append (before ++ piece) after
    rw [cut?, if_pos hdefined, byteLength_append, slice_append]

/-- Up to a boundary, a text can be cut from its beginning on. -/
theorem cut?_zero {cs : List Char} {n : Nat} (h : IsBoundary cs n) :
    cut? 0 n cs = some (takeBytes n cs) := by
  obtain ⟨before, after, rfl, rfl⟩ := isBoundary_iff.1 h
  rw [takeBytes_append, cut?_eq_some_iff]
  exact ⟨[], after, rfl, rfl, rfl⟩

/-- The two ends of a cut are boundaries. -/
theorem isBoundary_of_cut?_eq_some {start stop : Nat} {cs piece : List Char}
    (h : cut? start stop cs = some piece) : IsBoundary cs start ∧ IsBoundary cs stop := by
  unfold cut? at h
  split at h
  · rename_i hdefined
    exact hdefined.2
  · cases h

end Text

/-! ## Fragments -/

/-- A fragment stands in a source exactly if its stretch can be cut out of the source and is its
text. -/
theorem Fragment.standsIn_iff_cut? {source : List Char} {f : Fragment} :
    f.StandsIn source ↔ Text.cut? f.span.start f.span.stop source = some f.text := by
  rw [Text.cut?_eq_some_iff]
  constructor
  · rintro ⟨before, after, hsource, hstart⟩
    refine ⟨before, after, hsource, hstart, ?_⟩
    rw [Text.byteLength_append, ← hstart]
    rfl
  · rintro ⟨before, after, hsource, hstart, -⟩
    exact ⟨before, after, hsource, hstart⟩

end Mustache
