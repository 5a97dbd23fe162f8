import Mustache.Proofs.ErrorInvariants
import Mustache.Proofs.Flattening
import Mustache.Proofs.Slicing

/-!
# Places of flaws

Every finding has its place in the source that it is reported with: a stretch between
two boundaries of this source, which may be empty, but does not begin where the source
ends.  A flaw in the tags is at a marker or at a whole tag, a flaw in the nesting is at a
tag, and a value without a text is found at a name, behind which its tag goes on.

Main results:

- Theorem `Token.beginsIn_of_mem_names`: a name ends before its tag does.
- Theorem `Error.invariant_hasPlace`: every error that points into a source has its
  place there.
-/

namespace Mustache

open Text

/-! ## Names in their tags -/

namespace Token

variable {pair : Delimiters} {source : List Char} {stream : Stream}

/-- The markers that end a tag stand behind its name. -/
theorem stop_lt_of_mem_names (h : ofSource pair source = .ok stream) {t : Token}
    (ht : t ∈ stream.tokens) {f : Fragment} (hf : f ∈ t.kind.names) : f.stop < t.whole.stop := by
  obtain ⟨l, -, hkind, htext⟩ := exists_lexeme_of_ofSource h ht
  cases l with
  | text chars => simp [hkind, kindOfLexeme, TokenKind.names] at hf
  | tag pair sigil body =>
    rw [hkind, kindOfLexeme] at hf
    obtain rfl := List.mem_singleton.1 (names_kindOfTag_subset _ _ hf)
    obtain ⟨-, hstop⟩ := Fragment.inside_trimmed
      ⟨t.whole.start + byteLength pair.left.chars + byteLength sigil.mark, body⟩
    obtain ⟨front, hterminator⟩ := exists_terminator_eq sigil pair
    have hright := byteLength_pos pair.right.usable.1
    have hlength := congrArg byteLength htext
    simp only [Lexeme.chars, hterminator, byteLength_append] at hlength
    simp only [Fragment.span, Fragment.stop] at hstop ⊢
    omega

/-- A name stands in the source of its tag, and not at its end. -/
theorem beginsIn_of_mem_names (h : ofSource pair source = .ok stream) {t : Token}
    (ht : t ∈ stream.tokens) {f : Fragment} (hf : f ∈ t.kind.names) : f.BeginsIn source := by
  have hstands := standsIn_of_ofSource h t ht
  have hwhole := (hstands t.whole List.mem_cons_self).stop_le
  have hstop := stop_lt_of_mem_names h ht hf
  exact ⟨hstands f (List.mem_cons_of_mem _ hf), by have := f.start_le_stop; omega⟩

end Token

/-- The name of a variable, at every depth of a program, stands in the source, and not at its
end. -/
theorem Template.IsCompiled.beginsIn_name {t : Template} (h : t.IsCompiled) {escaping : Escaping}
    {target : Reference} (hwithin : (Instr.interpolation escaping target).Within t.program) :
    target.name.BeginsIn t.source.toList := by
  obtain ⟨pair, source, hcompile⟩ := h
  obtain ⟨stream, nodes, hfrom⟩ := compile_eq_ok_iff.1 hcompile
  rw [hfrom.template] at hwithin ⊢
  rcases Instr.exists_of_within hwithin with ⟨whole, htext⟩ | ⟨n, hn, heq⟩
  · cases htext
  · cases n with
    | interpolation escaping' name whole =>
      cases heq
      obtain ⟨u, hu, hleaf | ⟨polarity, opened, closing, body, -, hblock⟩⟩ :=
        (Node.ofTokens_eq_ok_iff.1 hfrom.nested).exists_token_of_within hn
      · have hname : name ∈ u.kind.names := by
          unfold Token.leaf? at hleaf
          split at hleaf <;> cases hleaf
          simp_all [TokenKind.names]
        have hsettles := Token.settlesTo_settle (Token.unindented_of_ofSource hfrom.tokens)
        obtain ⟨v, hv, hfragments⟩ := hsettles.exists_fragments_eq hu
        rw [← (List.cons.inj hfragments).2] at hname
        exact Token.beginsIn_of_mem_names hfrom.tokens hv hname
      · cases hblock
    | _ => cases heq

/-! ## Findings -/

/-- The span of the finding is that of a stretch of its source, which does not begin at the end. -/
def Finding.HasPlace (finding : Finding) : Prop :=
  ∃ f : Fragment, f.BeginsIn finding.source.toList ∧ finding.flaw.span = f.span

/-- If the error points into a source, it has its place there. -/
def Error.HasPlace : Error → Prop
  | .flawed finding => finding.HasPlace
  | _ => True

/-- An error that has its place in a source can be shown there. -/
theorem Error.HasPlace.sound {e : Error} (h : e.HasPlace) : e.Sound := by
  cases e with
  | flawed finding =>
    obtain ⟨f, hf, hspan⟩ := h
    exact Finding.sound_of_standsIn hf.standsIn hspan
  | _ => trivial

/-- Every error that points into a source has its place there. -/
theorem Error.invariant_hasPlace : Error.Invariant Error.HasPlace where
  limit _ := trivial
  device _ := trivial
  conversion _ := trivial
  compile pair source e h := by
    unfold Template.compile at h
    split at h
    · cases h
    · rename_i flaw htree
      cases h
      exact Template.exists_fragment_of_tree_error htree
  refuse t ht escaping target hwithin found := ⟨target.name, ht.beginsIn_name hwithin, rfl⟩
  blame name e h := by
    cases e with
    | flawed finding => exact h
    | _ => trivial

end Mustache
