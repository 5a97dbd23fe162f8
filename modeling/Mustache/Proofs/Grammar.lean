import Mustache.Proofs.Brackets
import Mustache.Proofs.Reading
import Mustache.Template

/-!
# The grammar of templates

A template has three kinds of rules: every tag that opens has its terminator,
every set delimiter tag names a pair of markers, and sections nest.  The first
two tell how far a template can be read at all, so they go before the third,
wherever the tags stand.

Main results:

- Theorem `Token.filterMap_bracket?_ofLexemes`: sections of tokens are those of tags.
- Theorem `Reaches.ofSource_of_finished`: a template that can be read to its end has
  tokens.
- Theorem `Template.compile_iff_grammatical`: the templates that can be compiled are
  those that follow the rules, and the others are reported with their first flaw.
-/

namespace Mustache

/-! ## Rules -/

/-- The bracket that a tag is, if it opens or closes a section. -/
def PlacedTag.bracket? (t : PlacedTag) : Option Bracket :=
  match t.sigil with
  | .hash | .caret => some (.opening ⟨Text.trim t.body, t.whole⟩)
  | .slash => some (.closing ⟨Text.trim t.body, t.whole⟩)
  | _ => none

/-- The opening and closing tags of sections that have been read. -/
def Reading.brackets (r : Reading) : List Bracket :=
  r.tags.filterMap PlacedTag.bracket?

/-- A source that follows the rules when it is read from a given pair of markers. -/
structure Grammatical (pair : Delimiters) (source : List Char) : Prop where
  /-- Every tag that opens has its terminator. -/
  closed : ∀ r, Reaches pair source r → ∀ text sigil terminator inner,
    r.Opens text sigil terminator inner → terminator <:+: inner
  /-- Every set delimiter tag names two markers. -/
  named : ∀ r, Reaches pair source r → ∀ text body rest, r.Holds text .equals body rest →
    ∃ live, Delimiters.NamedBy body live
  /-- The sections of the whole source are nested. -/
  nested : ∀ r, Reaches pair source r → r.Finished → Balanced r.brackets

/-- What is reported about a source that does not follow the rules.  Sections are looked at only
if the source can be read to its end. -/
inductive Reported (pair : Delimiters) (source : List Char) : Flaw → Prop
  | unclosedTag {r : Reading} {text terminator : List Char} (reaches : Reaches pair source r)
      (unclosed : r.Unclosed text terminator) :
      Reported pair source ⟨.unclosedTag (String.ofList terminator),
        Fragment.span ⟨Text.byteLength (r.passed ++ text), r.live.left.chars⟩⟩
  | badMarkers {r : Reading} {text body : List Char} (reaches : Reaches pair source r)
      (misnamed : r.Misnamed text body) :
      Reported pair source ⟨.badMarkers, (r.nextTag text .equals body).whole.span⟩
  | nesting {r : Reading} {flaw : Flaw} (reaches : Reaches pair source r) (finished : r.Finished)
      (hflaw : NestingFlaw r.brackets flaw) : Reported pair source flaw

/-! ## Tokens of a reading -/

/-- The sections of placed lexemes are those of their tags. -/
theorem Token.filterMap_bracket?_ofLexemes (start : Nat) (beginsLine : Bool) (ls : List Lexeme) :
    (ofLexemes start beginsLine ls).filterMap bracket? =
      (placedTags start ls).filterMap PlacedTag.bracket? := by
  induction ls generalizing start beginsLine with
  | nil => rfl
  | cons l ls ih =>
    rw [ofLexemes]
    cases l with
    | text chars =>
      rw [List.filterMap_cons_none rfl]
      exact ih _ _
    | tag pair sigil body =>
      rw [placedTags, List.filterMap_cons, List.filterMap_cons, ih]
      cases sigil <;> rfl

namespace Reaches

variable {pair : Delimiters} {source : List Char} {r : Reading}

/-- The lexemes that were read on the way to a reading and a text after it have the length of both,
and the tags of the reading. -/
theorem scan_text (h : Reaches pair source r) {texts : List (List Char)} {text : List Char}
    {ending : Ending} (hflatten : texts.flatten = text)
    (hscan : Scan.read r.live r.left = ⟨texts.map Lexeme.text, ending⟩) :
    ∃ ls, Scan.read pair source = ⟨ls, ending⟩ ∧ ls.flatMap Lexeme.chars = r.passed ++ text ∧
      placedTags 0 ls = r.tags := by
  obtain ⟨ls, hread, hpassed, htags⟩ := h.scan
  refine ⟨ls ++ texts.map Lexeme.text, ?_, ?_, ?_⟩
  · rw [hread, hscan]
    rfl
  · rw [List.flatMap_append, flatMap_chars_text, hpassed, hflatten]
  · rw [placedTags_append, placedTags_text, htags, List.append_nil]

/-- A template that can be read to its end has tokens, with the sections that were read. -/
theorem ofSource_of_finished (h : Reaches pair source r) (hfinished : r.Finished) :
    ∃ stream, Token.ofSource pair source = .ok stream ∧
      stream.tokens.filterMap Token.bracket? = r.brackets := by
  obtain ⟨texts, hflatten, hscan⟩ := hfinished.scan
  obtain ⟨ls, hread, -, htags⟩ := h.scan_text hflatten hscan
  refine ⟨⟨Token.ofLexemes 0 true ls, r.live⟩, ?_, ?_⟩
  · rw [Token.ofSource, hread]
    rfl
  · rw [Token.filterMap_bracket?_ofLexemes, htags, Reading.brackets]

/-- A tag without its terminator is reported with the place of its left marker. -/
theorem ofSource_of_unclosed (h : Reaches pair source r) {text terminator : List Char}
    (hunclosed : r.Unclosed text terminator) :
    Token.ofSource pair source = .error ⟨.unclosedTag (String.ofList terminator),
      Fragment.span ⟨Text.byteLength (r.passed ++ text), r.live.left.chars⟩⟩ := by
  obtain ⟨sigil, texts, rfl, hflatten, hscan⟩ := hunclosed.scan
  obtain ⟨ls, hread, hpassed, -⟩ := h.scan_text hflatten hscan
  rw [Token.ofSource, hread, ← hpassed]
  rfl

/-- A set delimiter tag without a pair is reported with its own place. -/
theorem ofSource_of_misnamed (h : Reaches pair source r) {text body : List Char}
    (hmisnamed : r.Misnamed text body) :
    Token.ofSource pair source =
      .error ⟨.badMarkers, (r.nextTag text .equals body).whole.span⟩ := by
  obtain ⟨texts, hflatten, hscan⟩ := hmisnamed.scan
  obtain ⟨ls, hread, hpassed, -⟩ := h.scan_text hflatten hscan
  rw [Token.ofSource, hread, Reading.nextTag, ← hpassed]
  rfl

end Reaches

/-! ## Trees -/

namespace Template

variable {pair : Delimiters} {source : List Char} {flaw : Flaw}

/-- A source that has no tokens has no tree. -/
theorem tree_of_ofSource_error (h : Token.ofSource pair source = .error flaw) :
    tree pair source = .error flaw := by
  rw [tree, h]
  rfl

/-- A source with tokens has a tree exactly if the sections of the tokens nest. -/
theorem tree_check {stream : Token.Stream} (h : Token.ofSource pair source = .ok stream) :
    (tree pair source).map (fun _ => ()) =
      Bracket.check (stream.tokens.filterMap Token.bracket?) := by
  have hcheck := Node.ofTokens_check (Token.settle stream.tokens)
  rw [Token.filterMap_bracket?_settle] at hcheck
  rw [tree, h, ← hcheck]
  show ((Node.ofTokens (Token.settle stream.tokens)).map _).map _ = _
  cases Node.ofTokens (Token.settle stream.tokens) <;> rfl

/-- Building the tree fails exactly with the flaw that is reported. -/
theorem tree_eq_error_iff : tree pair source = .error flaw ↔ Reported pair source flaw := by
  constructor
  · intro h
    obtain ⟨last, hlast, hfinished | ⟨text, terminator, hunclosed⟩ | ⟨text, body, hmisnamed⟩⟩ :=
      (Reaches.start : Reaches pair source _).exists_stuck
    · obtain ⟨stream, hstream, hbrackets⟩ := hlast.ofSource_of_finished hfinished
      have hcheck := tree_check hstream
      rw [h, hbrackets] at hcheck
      exact .nesting hlast hfinished (Bracket.check_eq_error_iff.1 hcheck.symm)
    · rw [tree_of_ofSource_error (hlast.ofSource_of_unclosed hunclosed)] at h
      cases h
      exact .unclosedTag hlast hunclosed
    · rw [tree_of_ofSource_error (hlast.ofSource_of_misnamed hmisnamed)] at h
      cases h
      exact .badMarkers hlast hmisnamed
  · intro h
    cases h with
    | unclosedTag hreaches hunclosed =>
      exact tree_of_ofSource_error (hreaches.ofSource_of_unclosed hunclosed)
    | badMarkers hreaches hmisnamed =>
      exact tree_of_ofSource_error (hreaches.ofSource_of_misnamed hmisnamed)
    | nesting hreaches hfinished hflaw =>
      obtain ⟨stream, hstream, hbrackets⟩ := hreaches.ofSource_of_finished hfinished
      have hcheck := tree_check hstream
      rw [hbrackets, Bracket.check_eq_error_iff.2 hflaw] at hcheck
      cases htree : tree pair source with
      | error flaw' =>
        rw [htree] at hcheck
        cases hcheck
        rfl
      | ok found =>
        rw [htree] at hcheck
        cases hcheck

/-- There is a tree exactly if the source follows the rules. -/
theorem exists_tree_iff :
    (∃ found, tree pair source = .ok found) ↔ Grammatical pair source := by
  constructor
  · rintro ⟨found, hfound⟩
    have hnone : ∀ flaw, ¬ Reported pair source flaw := by
      intro flaw hflaw
      rw [tree_eq_error_iff.2 hflaw] at hfound
      cases hfound
    refine ⟨?_, ?_, ?_⟩
    · intro r hr text sigil terminator inner hopens
      by_contra habsent
      exact hnone _ (.unclosedTag hr ⟨sigil, inner, hopens, habsent⟩)
    · intro r hr text body rest hholds
      by_contra hunnamed
      exact hnone _ (.badMarkers hr ⟨rest, hholds, not_exists.1 hunnamed⟩)
    · intro r hr hfinished
      cases hcheck : Bracket.check r.brackets with
      | error flaw =>
        exact absurd (.nesting hr hfinished (Bracket.check_eq_error_iff.1 hcheck)) (hnone flaw)
      | ok => exact Bracket.check_eq_ok_iff.1 hcheck
  · intro h
    cases htree : tree pair source with
    | ok found => exact ⟨found, rfl⟩
    | error flaw =>
      exfalso
      cases tree_eq_error_iff.1 htree with
      | unclosedTag hr hunclosed =>
        obtain ⟨sigil, inner, hopens, habsent⟩ := hunclosed
        exact habsent (h.closed _ hr _ _ _ _ hopens)
      | badMarkers hr hmisnamed =>
        obtain ⟨rest, hholds, hnone⟩ := hmisnamed
        obtain ⟨live, hlive⟩ := h.named _ hr _ _ _ hholds
        exact hnone live hlive
      | nesting hr hfinished hflaw =>
        have hcheck := Bracket.check_eq_error_iff.2 hflaw
        rw [Bracket.check_eq_ok_iff.2 (h.nested _ hr hfinished)] at hcheck
        cases hcheck

/-- The sources that can be compiled are those that follow the rules; any other source is reported
with the flaw that comes first, which is one that keeps it from being read if there is any. -/
theorem compile_iff_grammatical (pair : Delimiters) (source : String) :
    ((∃ t, compile pair source = .ok t) ↔ Grammatical pair source.toList) ∧
      ∀ e, compile pair source = .error e ↔
        ∃ flaw, Reported pair source.toList flaw ∧ e = .flawed ⟨flaw, source, none⟩ := by
  rw [← exists_tree_iff]
  simp only [← tree_eq_error_iff, compile]
  cases tree pair source.toList with
  | ok found =>
    refine ⟨⟨fun _ => ⟨found, rfl⟩, fun _ => ⟨_, rfl⟩⟩, fun e => ⟨nofun, ?_⟩⟩
    rintro ⟨flaw, hflaw, -⟩
    cases hflaw
  | error flaw =>
    refine ⟨⟨nofun, nofun⟩, fun e => ⟨?_, ?_⟩⟩
    · intro h
      cases h
      exact ⟨flaw, rfl, rfl⟩
    · rintro ⟨flaw', hflaw, rfl⟩
      cases hflaw
      rfl

end Template

end Mustache
