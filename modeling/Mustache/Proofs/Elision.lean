import Mustache.Proofs.SourceLines

/-!
# What is left of standalone lines

A line of tokens is standalone if it has a tag that may stand alone and nothing
else but blank text.  Settling a template takes the text of these lines away,
token by token: whether a token stays depends only on its line, and the indent
of an inclusion is the text before it on its line.

Main results:

- Theorem `Token.isStandaloneLine_iff`: the check of a line says what it should.
- Theorem `Token.settleLine_eq`: a line is settled token by token.
- Theorem `Token.settle_of_ofSource`: so is a template, line by line, and indents are
  blanks of one line.
-/

namespace Mustache

/-! ## Tags that may stand alone -/

/-- The kinds of tags that leave nothing of a line that they have to themselves. -/
inductive TokenKind.StandsAlone : TokenKind → Prop
  | sectionOpen (polarity : Polarity) (name : Fragment) : StandsAlone (.sectionOpen polarity name)
  | sectionClose (name : Fragment) : StandsAlone (.sectionClose name)
  | inclusion (name : Fragment) (indent : List Char) : StandsAlone (.inclusion name indent)
  | comment : StandsAlone .comment
  | setDelimiters : StandsAlone .setDelimiters

/-- The check of a kind says whether it may stand alone. -/
theorem TokenKind.isStandalone_iff (kind : TokenKind) :
    kind.isStandalone = true ↔ kind.StandsAlone := by
  constructor
  · intro h
    cases kind with
    | text | interpolation => cases h
    | _ => constructor
  · intro h
    cases h <;> rfl

namespace Token

/-! ## Settled tokens -/

/-- The line has a tag that may stand alone, no interpolation, and no text but blanks. -/
structure Standalone (line : List Token) : Prop where
  tag : ∃ t ∈ line, t.kind.StandsAlone
  noInterpolation : ∀ t ∈ line, ∀ escaping name, t.kind ≠ .interpolation escaping name
  blank : ∀ t ∈ line, t.kind = .text → ∀ c ∈ t.whole.text, Text.isBlank c = true

/-- Every token fits if there is no interpolation and no text but blanks. -/
theorem fitsStandaloneLine_iff (t : Token) : t.fitsStandaloneLine = true ↔
    (∀ escaping name, t.kind ≠ .interpolation escaping name) ∧
      (t.kind = .text → ∀ c ∈ t.whole.text, Text.isBlank c = true) := by
  unfold fitsStandaloneLine
  cases t.kind <;> simp [TokenKind.isStandalone]

/-- The check of a line says whether it is standalone. -/
theorem isStandaloneLine_iff (line : List Token) :
    isStandaloneLine line = true ↔ Standalone line := by
  rw [isStandaloneLine, Bool.and_eq_true, List.any_eq_true, List.all_eq_true]
  simp only [TokenKind.isStandalone_iff]
  constructor
  · rintro ⟨htag, hfits⟩
    exact ⟨htag, fun t ht => ((fitsStandaloneLine_iff t).1 (hfits t ht)).1,
      fun t ht => ((fitsStandaloneLine_iff t).1 (hfits t ht)).2⟩
  · intro h
    exact ⟨h.tag, fun t ht => (fitsStandaloneLine_iff t).2 ⟨h.noInterpolation t ht, h.blank t ht⟩⟩

instance (line : List Token) : Decidable (Standalone line) :=
  decidable_of_iff _ (isStandaloneLine_iff line)

/-- The text among tokens. -/
def textAmong (ts : List Token) : List Char :=
  (ts.filter fun t => t.kind = .text).flatMap fun t => t.whole.text

/-- What a token becomes, given its line and the tokens before it on the line.  Text is taken away
from a standalone line, where it indents the inclusions after it. -/
def settled (line before : List Token) (t : Token) : Option Token :=
  match t.kind with
  | .text => if Standalone line then none else some t
  | .inclusion name _ =>
    some { t with kind := .inclusion name (if Standalone line then textAmong before else []) }
  | _ => some t

/-- A line settled token by token. -/
def settledLine (line : List Token) : List Token :=
  line.zipIdx.filterMap fun p => settled line (line.take p.2) p.1

/-! ## One line -/

theorem textAmong_append (ts us : List Token) :
    textAmong (ts ++ us) = textAmong ts ++ textAmong us := by
  simp [textAmong]

/-- On a standalone line, dropping text settles the tokens, given the text before them. -/
theorem dropText_eq {line : List Token} (hline : Standalone line) (before ts : List Token)
    (hsplit : line = before ++ ts) :
    dropText (textAmong before) ts =
      (ts.zipIdx before.length).filterMap fun p => settled line (line.take p.2) p.1 := by
  induction ts generalizing before with
  | nil => rfl
  | cons t ts ih =>
    have hnext := ih (before ++ [t]) (by rw [hsplit, List.append_assoc]; rfl)
    rw [List.length_append, List.length_singleton, textAmong_append] at hnext
    have htake : line.take before.length = before := by rw [hsplit, List.take_left]
    rw [List.zipIdx_cons, List.filterMap_cons, ← hnext, htake, dropText]
    cases hkind : t.kind with
    | text =>
      have hsettled : settled line before t = none := by
        rw [settled, hkind]
        exact if_pos hline
      simp [hsettled, textAmong, hkind]
    | inclusion name indent =>
      have hsettled : settled line before t =
          some { t with kind := .inclusion name (textAmong before) } := by
        rw [settled, hkind]
        simp only [if_pos hline]
      simp [hsettled, textAmong, hkind]
    | _ =>
      have hsettled : settled line before t = some t := by
        rw [settled, hkind]
      simp [hsettled, textAmong, hkind]

/-- No inclusion has an indent. -/
def Unindented (ts : List Token) : Prop :=
  ∀ t ∈ ts, ∀ name indent, t.kind = .inclusion name indent → indent = []

/-- On any other line, every token stays as it is. -/
theorem settled_of_not_standalone {line before : List Token} (hline : ¬ Standalone line) {t : Token}
    (ht : ∀ name indent, t.kind = .inclusion name indent → indent = []) :
    settled line before t = some t := by
  unfold settled
  split
  · exact if_neg hline
  · rename_i name indent hkind
    obtain rfl := ht name indent hkind
    rw [if_neg hline, ← hkind]
  · rfl

/-- A line is settled token by token. -/
theorem settleLine_eq {line : List Token} (hindents : Unindented line) :
    settleLine line = settledLine line := by
  rw [settleLine]
  split
  · rename_i hline
    exact dropText_eq ((isStandaloneLine_iff line).1 hline) [] line rfl
  · rename_i hline
    rw [isStandaloneLine_iff] at hline
    have hsame : ∀ p ∈ line.zipIdx, settled line (line.take p.2) p.1 = some p.1 := by
      intro p hp
      exact settled_of_not_standalone hline (hindents p.1 (List.fst_mem_of_mem_zipIdx hp))
    rw [settledLine, List.filterMap_congr hsame]
    show line = line.zipIdx.filterMap (some ∘ Prod.fst)
    rw [List.filterMap_eq_map, List.zipIdx_map_fst]

/-! ## Templates -/

/-- The tokens of a source have no indents yet. -/
theorem unindented_of_ofSource {pair : Delimiters} {source : List Char} {stream : Stream}
    (h : ofSource pair source = .ok stream) : Unindented stream.tokens := by
  intro t ht name indent hkind
  rw [(ofScan_eq_ok h).2] at ht
  obtain ⟨l, -, hlexeme, -⟩ := exists_of_mem_ofLexemes ht
  rw [hkind] at hlexeme
  cases l with
  | text chars => cases hlexeme
  | tag pair sigil body =>
    cases sigil <;> cases hlexeme
    rfl

/-- A character of the text among tokens stands in one of them. -/
theorem mem_textAmong {ts : List Token} {c : Char} (h : c ∈ textAmong ts) :
    ∃ t ∈ ts, t.kind = .text ∧ c ∈ t.whole.text := by
  obtain ⟨t, ht, hc⟩ := List.mem_flatMap.1 h
  obtain ⟨hmem, hkind⟩ := List.mem_filter.1 ht
  exact ⟨t, hmem, of_decide_eq_true hkind, hc⟩

/-- An indent is the text before an inclusion on a standalone line. -/
theorem eq_indent_of_settled {line before : List Token} {t u : Token} {name : Fragment}
    {indent : List Char} (h : settled line before t = some u)
    (hkind : u.kind = .inclusion name indent) :
    indent = if Standalone line then textAmong before else [] := by
  unfold settled at h
  split at h
  · rename_i htext
    split at h
    · cases h
    · cases h
      rw [htext] at hkind
      cases hkind
  · cases h
    cases hkind
    rfl
  · rename_i hother
    cases h
    exact absurd hkind (hother name indent)

/-- An indent consists of blanks of one line. -/
theorem blank_of_mem_settledLine {pair : Delimiters} {source : List Char} {stream : Stream}
    (h : ofSource pair source = .ok stream) {line : List Token}
    (hline : line ∈ lines stream.tokens) {u : Token} (hu : u ∈ settledLine line) {name : Fragment}
    {indent : List Char} (hkind : u.kind = .inclusion name indent) :
    ∀ c ∈ indent, Text.isBlank c = true ∧ c ≠ '\n' := by
  obtain ⟨⟨t, k⟩, ht, hsettled⟩ := List.mem_filterMap.1 hu
  have hsplit : line = line.take k ++ t :: line.drop (k + 1) := by
    obtain ⟨hk, heq⟩ := List.mem_zipIdx' ht
    rw [heq, List.getElem_cons_drop, List.take_append_drop]
  rw [eq_indent_of_settled hsettled hkind]
  split
  · rename_i hstandalone
    intro c hc
    obtain ⟨v, hv, htext, hcv⟩ := mem_textAmong hc
    refine ⟨hstandalone.blank v (List.mem_of_mem_take hv) htext c hcv, ?_⟩
    rintro rfl
    exact newline_not_mem_of_mem_lines h hline hsplit v hv htext hcv
  · simp

/-- The tokens of a source are cut into its lines and settled line by line, and the indents that
inclusions get are blanks of one line. -/
structure SettledBy (source : List Char) (tokens : List Token)
    (sourceLines : List (List Token)) : Prop where
  flatten : sourceLines.flatten = tokens
  sourceLine : ∀ line ∈ sourceLines, IsSourceLine source line
  settle : settle tokens = sourceLines.flatMap settledLine
  indent : ∀ t ∈ Token.settle tokens, ∀ name indent, t.kind = .inclusion name indent →
    ∀ c ∈ indent, Text.isBlank c = true ∧ c ≠ '\n'

/-- The tokens of a template are settled token by token, as their source lines say. -/
theorem settle_of_ofSource (pair : Delimiters) (source : List Char) (stream : Stream)
    (h : ofSource pair source = .ok stream) :
    ∃ sourceLines, SettledBy source stream.tokens sourceLines := by
  have hsettle : settle stream.tokens = (lines stream.tokens).flatMap settledLine := by
    refine List.flatMap_congr ?_
    intro line hline
    exact settleLine_eq fun t ht => unindented_of_ofSource h t (mem_of_mem_lines hline ht)
  refine ⟨lines stream.tokens, flatten_lines _, ?_, hsettle, ?_⟩
  · intro line hline
    exact isSourceLine_of_mem_lines h hline
  · intro t ht name indent hkind
    rw [hsettle] at ht
    obtain ⟨line, hline, ht⟩ := List.mem_flatMap.1 ht
    exact blank_of_mem_settledLine h hline ht hkind

/-- An inclusion behind a blank, and text on the next line. -/
theorem settle_of_ofSource_inclusion :
    let source := [' ', '{', '{', '>', 'a', '}', '}', '\n', 'b']
    let tokens : List Token := [⟨.text, ⟨0, [' ']⟩, true⟩,
      ⟨.inclusion ⟨4, ['a']⟩ [], ⟨1, ['{', '{', '>', 'a', '}', '}']⟩, false⟩,
      ⟨.text, ⟨7, ['\n']⟩, false⟩, ⟨.text, ⟨8, ['b']⟩, true⟩]
    ofSource .standard source = .ok ⟨tokens, .standard⟩ ∧
      ∃ sourceLines, SettledBy source tokens sourceLines := by
  intro source tokens
  have h : ofSource .standard source = .ok ⟨tokens, .standard⟩ := by decide +kernel
  exact ⟨h, settle_of_ofSource .standard source ⟨tokens, .standard⟩ h⟩

end Token

end Mustache
