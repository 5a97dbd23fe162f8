import Mustache.Proofs.SafeOutput
import Mustache.Proofs.Slicing
import Mustache.Proofs.Streaming

/-!
# Escaping can be undone

Escaping writes a text character by character: a reserved character as its entity,
every other one as it stands.  Since an ampersand is reserved itself, also where it
looks like the beginning of an entity, the escaped text says which characters were
there, and reading its entities from left to right gives the text back.

Main results:

- Theorem `Html.unescape_escape`: reading the entities gives back the text.
- Theorem `Html.escapeString_reversible`: what a writer gets of a text is the text in
  a code that can be undone.
-/

namespace Mustache

namespace Html

/-! ## The table of entities -/

/-- The reserved characters with their entities. -/
def entities : List (Char × List Char) :=
  [('&', ['&', 'a', 'm', 'p', ';']), ('<', ['&', 'l', 't', ';']), ('>', ['&', 'g', 't', ';']),
    ('"', ['&', 'q', 'u', 'o', 't', ';']), ('\'', ['&', '#', '3', '9', ';'])]

/-- How a character is written according to the table. -/
def written (c : Char) : List Char :=
  (entities.lookup c).getD [c]

/-- The table has the entities of the reserved characters. -/
theorem lookup_entities (c : Char) : entities.lookup c = entity? c := by
  unfold entity?
  split
  · rfl
  · rfl
  · rfl
  · rfl
  · rfl
  · rename_i hamp hlt hgt hquot hapos
    simp [entities, List.lookup_cons, beq_false_of_ne hamp, beq_false_of_ne hlt,
      beq_false_of_ne hgt, beq_false_of_ne hquot, beq_false_of_ne hapos]

/-- Every entity stands in the table. -/
theorem mem_entities {c : Char} {entity : List Char} (h : entity? c = some entity) :
    (c, entity) ∈ entities := by
  rw [← lookup_entities] at h
  obtain ⟨before, after, hsplit, -⟩ := List.lookup_eq_some_iff.1 h
  rw [hsplit]
  exact List.mem_append_right _ List.mem_cons_self

/-- An escaped text is written character by character. -/
theorem escape_eq_flatMap (text : List Char) : escape text = text.flatMap written := by
  have hchar : escapeChar = written := by
    funext c
    rw [escapeChar, written, lookup_entities]
  rw [escape, hchar]

/-! ## Reading entities -/

/-- The text with every entity replaced by its character, from left to right. -/
def unescape : List Char → List Char
  | [] => []
  | c :: cs =>
    match entities.find? fun entry => entry.2.isPrefixOf (c :: cs) with
    | some (reserved, entity) => reserved :: unescape (cs.drop (entity.length - 1))
    | none => c :: unescape cs
termination_by text => text.length
decreasing_by
  all_goals simp only [List.length_drop, List.length_cons]; omega

@[simp]
theorem unescape_nil : unescape [] = [] := by
  rw [unescape]

/-- An entity is read as its character. -/
theorem unescape_entity {c : Char} {entity : List Char} (h : entity? c = some entity)
    (rest : List Char) : unescape (entity ++ rest) = c :: unescape rest := by
  have hentry := mem_entities h
  simp only [entities, List.mem_cons, List.not_mem_nil, or_false, Prod.mk.injEq] at hentry
  rcases hentry with ⟨rfl, rfl⟩ | ⟨rfl, rfl⟩ | ⟨rfl, rfl⟩ | ⟨rfl, rfl⟩ | ⟨rfl, rfl⟩ <;>
    · rw [List.cons_append, unescape]
      rfl

/-- No entity begins with another character than an ampersand. -/
theorem unescape_cons {c : Char} (h : c ≠ '&') (rest : List Char) :
    unescape (c :: rest) = c :: unescape rest := by
  have hnone : (entities.find? fun entry => entry.2.isPrefixOf (c :: rest)) = none := by
    simp [entities, List.isPrefixOf, beq_false_of_ne (Ne.symm h)]
  rw [unescape, hnone]

/-- Reading the entities of an escaped text gives back the text. -/
theorem unescape_escape (text : List Char) : unescape (escape text) = text := by
  induction text with
  | nil => simp
  | cons c cs ih =>
    rw [escape, List.flatMap_cons, ← escape, escapeChar]
    cases hc : entity? c with
    | some entity => rw [Option.getD_some, unescape_entity hc, ih]
    | none =>
      have hne : c ≠ '&' := by
        rintro rfl
        cases hc
      rw [Option.getD_none, List.singleton_append, unescape_cons hne, ih]

/-- Different texts are written in different ways. -/
theorem escape_injective : Function.Injective escape :=
  Function.LeftInverse.injective unescape_escape

/-- Of the reserved characters, only the ampersand stands in an escaped text. -/
theorem not_mem_escape {c : Char} (hreserved : entity? c ≠ none) (hne : c ≠ '&')
    (text : List Char) : c ∉ escape text := by
  intro hc
  obtain ⟨cs, hcs, -⟩ := (Composed.escape (fun _ => False) text).mem_literal hc hreserved hne
  exact hcs

/-- Every ampersand of an escaped text begins an entity. -/
theorem exists_entity_of_escape {text before after : List Char}
    (h : escape text = before ++ '&' :: after) :
    ∃ entity ∈ entities.map Prod.snd, entity <+: '&' :: after := by
  obtain ⟨c, entity, hentity, hprefix⟩ :=
    (Composed.escape (fun _ => False) text).exists_entity nofun h
  exact ⟨entity, List.mem_map_of_mem (mem_entities hentity), hprefix⟩

end Html

/-! ## Writing escaped texts -/

namespace Render

variable {σ : Type}

/-- Writing some pieces is offering them to the sink, up to the first one that it refuses. -/
theorem emitAll_eq (pieces : List (List Char)) (p : Progress σ) :
    emitAll pieces p =
      match p.sink.refusalAmong? pieces with
      | none => .ok () { p with sink := p.sink.writeAll pieces }
      | some reason => .error (.device reason) { p with sink := p.sink.writeAll pieces } := by
  induction pieces generalizing p with
  | nil => rfl
  | cons piece pieces ih =>
    change EStateM.bind (emit piece) (fun _ => emitAll pieces) p = _
    rw [EStateM.bind, emit, Sink.refusalAmong?, Sink.writeAll]
    cases hpiece : p.sink.refusal? piece with
    | none => exact ih _
    | some reason => rfl

/-- A buffer gets all pieces. -/
theorem emitAll_buffer (pieces : List (List Char)) {p : Progress σ} {before : String}
    (h : p.sink = .buffer before) :
    emitAll pieces p =
      .ok () { p with sink := .buffer (before ++ String.ofList pieces.flatten) } := by
  rw [emitAll_eq, h, Sink.refusalAmong?_buffer, Sink.writeAll_buffer]

/-- A sink that refuses nothing gets all pieces. -/
theorem bytes_of_emitAll {pieces : List (List Char)} {p q : Progress σ}
    (h : emitAll pieces p = .ok () q) :
    q.sink.bytes = p.sink.bytes ++ Text.encode pieces.flatten := by
  rw [emitAll_eq] at h
  cases hrefusal : p.sink.refusalAmong? pieces with
  | none =>
    rw [hrefusal] at h
    cases h
    exact Sink.bytes_writeAll hrefusal
  | some reason =>
    rw [hrefusal] at h
    cases h

end Render

namespace Html

variable {σ : Type}

/-- Escaping is a reversible encoding of characters.  Cutting a text at its reserved characters,
whatever characters of several bytes stand around them, gives the pieces that are written; a writer
that takes them all has got the characters one by one, reserved ones as entities.  Texts in a row
are escaped one after the other, no other reserved character than the ampersand is left, every
ampersand begins an entity, and reading the entities from left to right gives back the text. -/
theorem escapeString_reversible (s : String) :
    escapeFrom? s.toList 0 0 s.toList = some (Render.textPieces .escaped s) ∧
    (∀ (p : Progress σ) before, p.sink = .buffer before →
      Render.emitAll (Render.textPieces .escaped s) p =
        .ok () { p with sink := .buffer (before ++ escapeString s) }) ∧
    (∀ p q : Progress σ, Render.emitAll (Render.textPieces .escaped s) p = .ok () q →
      q.sink.bytes = p.sink.bytes ++ Text.encode (escapeString s).toList) ∧
    (escapeString s).toList = s.toList.flatMap written ∧
    (∀ t, escapeString (s ++ t) = escapeString s ++ escapeString t) ∧
    (∀ c ∈ ['<', '>', '"', '\''], c ∉ (escapeString s).toList) ∧
    (∀ before after, (escapeString s).toList = before ++ '&' :: after →
      ∃ entity ∈ entities.map Prod.snd, entity <+: '&' :: after) ∧
    String.ofList (unescape (escapeString s).toList) = s ∧
    ∀ t, escapeString s = escapeString t → s = t := by
  have htext : (escapeString s).toList = escape s.toList := String.toList_ofList
  have hpieces : (Render.textPieces .escaped s).flatten = escape s.toList :=
    flatten_escapePieces s.toList
  refine ⟨escapeFrom?_eq s.toList, ?_, ?_, htext.trans (escape_eq_flatMap _), ?_, ?_, ?_, ?_, ?_⟩
  · intro p before hbuffer
    rw [Render.emitAll_buffer _ hbuffer, hpieces, escapeString]
  · intro p q hwritten
    rw [Render.bytes_of_emitAll hwritten, hpieces, htext]
  · intro t
    simp only [escapeString, String.toList_append, escape_append, String.ofList_append]
  · intro c hc
    rw [htext]
    simp only [List.mem_cons, List.not_mem_nil, or_false] at hc
    rcases hc with rfl | rfl | rfl | rfl <;> exact not_mem_escape (by decide) (by decide) _
  · intro before after hsplit
    exact exists_entity_of_escape (htext ▸ hsplit)
  · rw [htext, unescape_escape, String.ofList_toList]
  · intro t hsame
    exact String.toList_inj.1 (escape_injective (String.ofList_injective hsame))

/-- Reserved characters next to each other and between characters of several bytes, and a text that
looks like an entity. -/
theorem escapeString_reversible_multibyte :
    let s := "é<\"λ&amp;>"
    let p : Progress Unit := ⟨[], [], [], (), .buffer "x"⟩
    let behind := ['q', 'u', 'o', 't', ';', 'λ', '&', 'a', 'm', 'p', ';', 'a', 'm', 'p', ';',
      '&', 'g', 't', ';']
    escapeString s = "é&lt;&quot;λ&amp;amp;&gt;" ∧
      Render.emitAll (Render.textPieces .escaped s) p =
        .ok () { p with sink := .buffer ("x" ++ escapeString s) } ∧
      (∃ entity ∈ entities.map Prod.snd, entity <+: '&' :: behind) ∧
      String.ofList (unescape (escapeString s).toList) = s := by
  intro s p behind
  have hsplit : (escapeString s).toList = ['é', '&', 'l', 't', ';'] ++ '&' :: behind := by
    decide +kernel
  obtain ⟨-, hbuffer, -, -, -, -, hentity, hread, -⟩ := escapeString_reversible (σ := Unit) s
  exact ⟨by decide +kernel, hbuffer p "x" rfl, hentity _ _ hsplit, hread⟩

end Html

end Mustache
