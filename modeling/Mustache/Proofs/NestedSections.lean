import Mustache.Proofs.SectionText

/-!
# Tags inside nested sections

A tag, or a section around a text, stands inside sections that have nothing else in
them.  The tags of the sections stand on the lines of the inner tags, so lines are
settled as they are without the sections around, and the text that is left is the same.
What such a source compiles to is one section inside the other, with the instruction
for the inner tag at the end.

Main results:

- Theorem `Usage.read_nested_append`: the tags of a nest are read one after the other.
- Theorem `Token.Spreads.settle_flatMap`: lines are settled alike if section tags stand
  in place of section tags.
- Theorem `Grows.exists_nest`: section tags around tokens grow into sections around nodes.
- Theorem `Usage.exists_compile`: what a nest compiles to.
-/

namespace Mustache

/-! ## Names and texts -/

/-- A name that is read as it stands in every kind of tag. -/
structure IsTagName (name : List Char) : Prop where
  ne_nil : name ≠ []
  solid : ∀ c ∈ name, Text.isBlank c = false
  braceless : ∀ c ∈ name, c ≠ '{' ∧ c ≠ '}'
  unmarked : ∀ c ∈ name.head?, c ∉ ['&', '{', '#', '^', '/', '>', '!', '=']

theorem isTagName_iff (name : List Char) :
    IsTagName name ↔ name ≠ [] ∧
      name.all (fun c => !Text.isBlank c && (c != '{' && c != '}')) = true ∧
      name.head?.all (fun c => !(['&', '{', '#', '^', '/', '>', '!', '='].contains c)) = true := by
  constructor
  · intro h
    refine ⟨h.ne_nil, List.all_eq_true.2 fun c hc => ?_, ?_⟩
    · simp [h.solid c hc, h.braceless c hc]
    · cases hhead : name.head? with
      | none => rfl
      | some c =>
        have hc := h.unmarked c hhead
        simpa using hc
  · rintro ⟨hne, hall, hhead⟩
    have hchars : ∀ c ∈ name, Text.isBlank c = false ∧ c ≠ '{' ∧ c ≠ '}' := by
      simpa using hall
    refine ⟨hne, fun c hc => (hchars c hc).1, fun c hc => (hchars c hc).2, ?_⟩
    intro c hc
    rw [Option.mem_def.1 hc] at hhead
    simpa using hhead

instance (name : List Char) : Decidable (IsTagName name) :=
  decidable_of_iff _ (isTagName_iff name).symm

/-- A segment of a name. -/
structure Segment where
  chars : List Char
  isTagName : IsTagName chars
  dotless : '.' ∉ chars

/-- The segment as a string. -/
def Segment.toString (k : Segment) : String :=
  String.ofList k.chars

/-- A text in which no tag begins, also if a tag follows. -/
structure LiteralText where
  chars : List Char
  tagless : ¬ ['{', '{'] <:+: chars ++ ['{']

namespace IsTagName

variable {name : List Char} (h : IsTagName name)

include h

/-- There are no blanks around the name. -/
theorem trim : Text.trim name = name := by
  have hkept : ∀ cs : List Char, (∀ c ∈ cs, Text.isBlank c = false) →
      cs.dropWhile Text.isBlank = cs := by
    intro cs hcs
    cases cs with
    | nil => rfl
    | cons c cs => rw [List.dropWhile_cons_of_neg (by simp [hcs c List.mem_cons_self])]
  have hreverse := hkept name.reverse fun c hc => h.solid c (List.mem_reverse.1 hc)
  rw [Text.trim, Text.trimLeft, hkept name h.solid, Text.trimRight, hreverse, List.reverse_reverse]

/-- A tag with the name is read as it stands. -/
theorem read_tag {sigil : Sigil} (hequals : sigil ≠ .equals) (rest : List Char) :
    Step.read .standard ((Lexeme.tag .standard sigil name).chars ++ rest) =
      .lexeme (.tag .standard sigil name) .standard rest := by
  refine Step.read_tag hequals ?_ ?_
  · cases sigil with
    | plain =>
      refine .plain fun c hc => h.unmarked c ?_
      rwa [Sigil.mark, List.nil_append, List.head?_append_of_ne_nil _ h.ne_nil] at hc
    | _ => constructor
  · have hbrace : '}' ∉ name := fun hmem => (h.braceless _ hmem).2 rfl
    cases sigil with
    | equals => exact absurd rfl hequals
    | _ =>
      rintro c ⟨⟩
      exact hbrace

end IsTagName

namespace LiteralText

/-- The lexemes of the text. -/
def lexemes (body : LiteralText) : List Lexeme :=
  (Scan.read .standard body.chars).lexemes

/-- No tag begins in the text if a tag follows. -/
theorem clear (body : LiteralText) (rest : List Char) :
    Text.Clear Delimiters.standard.left.chars body.chars
      (Delimiters.standard.left.chars ++ rest) := by
  intro t₁ t₂ hsplit hne hprefix
  apply body.tagless
  have hshort : ['{', '{'] <+: t₂ ++ ['{'] := by
    refine List.prefix_of_prefix_length_le hprefix ⟨'{' :: rest, by simp [Delimiters.standard]⟩ ?_
    have := List.length_pos_iff.2 hne
    simp only [List.length_append, List.length_cons, List.length_nil]
    omega
  rw [hsplit, List.append_assoc]
  exact hshort.isInfix.trans (List.suffix_append _ _).isInfix

/-- The text is read in front of a tag as it is read by itself. -/
theorem read_append (body : LiteralText) {rest : List Char} {ls : List Lexeme} {live : Delimiters}
    (h : Scan.read .standard (Delimiters.standard.left.chars ++ rest) = ⟨ls, .finished live⟩) :
    Scan.read .standard (body.chars ++ (Delimiters.standard.left.chars ++ rest)) =
      ⟨body.lexemes ++ ls, .finished live⟩ := by
  obtain ⟨texts, hflatten, hread⟩ := Scan.read_append_of_clear body.chars _ (body.clear rest)
    (Step.textRun_left_append Delimiters.standard.left rest)
  rw [h] at hread
  have hread' : Scan.read .standard (body.chars ++ (Delimiters.standard.left.chars ++ rest)) =
      ⟨texts.map Lexeme.text ++ ls, .finished live⟩ := hread
  obtain ⟨middle, hself, -⟩ := Scan.exists_read_split hread'
  rw [flatMap_chars_text, hflatten] at hself
  rw [hread', lexemes, hself]

/-- The text has only text in it. -/
theorem exists_lexemes_eq (body : LiteralText) :
    ∃ texts : List (List Char), body.lexemes = texts.map Lexeme.text := by
  have hfinished : (Reading.start .standard body.chars).Finished :=
    fun hoccurs => body.tagless (hoccurs.trans (List.prefix_append _ _).isInfix)
  obtain ⟨texts, -, hscan⟩ := hfinished.scan
  exact ⟨texts, congrArg Scan.lexemes hscan⟩

end LiteralText

/-! ## Sources of nests -/

/-- The ways to write a variable tag. -/
inductive VariableForm where
  | plain
  | ampersand
  | brace

namespace VariableForm

/-- The kind of the tag. -/
def sigil : VariableForm → Sigil
  | plain => .plain
  | ampersand => .ampersand
  | brace => .brace

/-- Whether the text of the name is escaped. -/
def escaping : VariableForm → Escaping
  | plain => .escaped
  | ampersand | brace => .unescaped

end VariableForm

/-- The kind of the open tag of a section. -/
def Polarity.sigil : Polarity → Sigil
  | upright => .hash
  | inverted => .caret

/-- What is done with a name: it is written, or it is the name of a section around a text. -/
inductive Usage where
  | interpolation (form : VariableForm)
  | block (polarity : Polarity) (body : LiteralText)

/-- The open tags of sections, the outermost one first. -/
def openings (outer : List Segment) : List Lexeme :=
  outer.map fun k => .tag .standard .hash k.chars

/-- The close tags of sections, the outermost one last. -/
def closings (outer : List Segment) : List Lexeme :=
  (outer.map fun k => .tag .standard .slash k.chars).reverse

namespace Usage

variable (use : Usage) (name : List Char)

/-- The source that uses a name. -/
def source : List Char :=
  match use with
  | interpolation form => (Lexeme.tag .standard form.sigil name).chars
  | block polarity body => (Lexeme.tag .standard polarity.sigil name).chars ++
      (body.chars ++ (Lexeme.tag .standard .slash name).chars)

/-- The lexemes of the source that uses a name. -/
def lexemes : List Lexeme :=
  match use with
  | interpolation form => [.tag .standard form.sigil name]
  | block polarity body => .tag .standard polarity.sigil name ::
      (body.lexemes ++ [.tag .standard .slash name])

/-- The source that uses a name inside sections, each inside the one before. -/
def nested : List Segment → List Char
  | [] => use.source name
  | k :: outer => (Lexeme.tag .standard .hash k.chars).chars ++
      (nested outer ++ (Lexeme.tag .standard .slash k.chars).chars)

/-! ## Reading nests -/

variable {name} {rest : List Char} {ls : List Lexeme}

/-- A tag is read in front of what follows it. -/
theorem read_tag_append (h : IsTagName name) (sigil : Sigil) (hequals : sigil ≠ .equals)
    (hrest : Scan.read .standard rest = ⟨ls, .finished .standard⟩) :
    Scan.read .standard ((Lexeme.tag .standard sigil name).chars ++ rest) =
      ⟨.tag .standard sigil name :: ls, .finished .standard⟩ := by
  rw [Scan.read_of_lexeme (h.read_tag hequals rest), hrest]
  rfl

/-- What uses a name is read in front of what follows it. -/
theorem read_source_append (h : IsTagName name)
    (hrest : Scan.read .standard rest = ⟨ls, .finished .standard⟩) :
    Scan.read .standard (use.source name ++ rest) =
      ⟨use.lexemes name ++ ls, .finished .standard⟩ := by
  cases use with
  | interpolation form => exact read_tag_append h form.sigil (by cases form <;> decide) hrest
  | block polarity body =>
    have hclose := read_tag_append h .slash (by decide) hrest
    have hchars : (Lexeme.tag .standard .slash name).chars ++ rest =
        Delimiters.standard.left.chars ++
          ('/' :: (name ++ (Delimiters.standard.right.chars ++ rest))) := by
      simp [Lexeme.chars, Sigil.mark, Sigil.terminator]
    rw [hchars] at hclose
    have hbody := body.read_append hclose
    rw [← hchars] at hbody
    have hopen := read_tag_append h polarity.sigil (by cases polarity <;> decide) hbody
    simpa [source, lexemes] using hopen

/-- The tags of a nest are read one after the other. -/
theorem read_nested_append (h : IsTagName name) (outer : List Segment)
    (hrest : Scan.read .standard rest = ⟨ls, .finished .standard⟩) :
    Scan.read .standard (use.nested name outer ++ rest) =
      ⟨openings outer ++ (use.lexemes name ++ closings outer) ++ ls, .finished .standard⟩ := by
  induction outer generalizing rest ls with
  | nil => simpa [nested, openings, closings] using use.read_source_append h hrest
  | cons k outer ih =>
    have hclose := read_tag_append k.isTagName .slash (by decide) hrest
    have hopen := read_tag_append k.isTagName .hash (by decide) (ih hclose)
    simpa [nested, openings, closings] using hopen

/-- The tokens of a nest. -/
theorem ofSource_nested (h : IsTagName name) (outer : List Segment) :
    Token.ofSource .standard (use.nested name outer) = .ok ⟨Token.ofLexemes 0 true
      (openings outer ++ (use.lexemes name ++ closings outer)), .standard⟩ := by
  have hend : Scan.read .standard [] = ⟨[], .finished .standard⟩ := Scan.read_of_ended rfl
  have hread := use.read_nested_append h outer hend
  rw [List.append_nil, List.append_nil] at hread
  rw [Token.ofSource, hread]
  rfl

end Usage

/-! ## Settling nests -/

namespace Token

/-- The token opens or closes a section. -/
def IsBracket (t : Token) : Prop :=
  (∃ polarity name, t.kind = .sectionOpen polarity name) ∨ ∃ name, t.kind = .sectionClose name

/-- There is nothing but text and the tags of sections. -/
def AreBracketed (ts : List Token) : Prop :=
  ∀ t ∈ ts, t.kind = .text ∨ t.IsBracket

namespace IsBracket

variable {t : Token} (h : t.IsBracket)

include h

theorem isStandalone : t.kind.isStandalone = true := by
  rcases h with ⟨polarity, name, hkind⟩ | ⟨name, hkind⟩ <;> rw [hkind] <;> rfl

theorem fitsStandaloneLine : t.fitsStandaloneLine = true := by
  rcases h with ⟨polarity, name, hkind⟩ | ⟨name, hkind⟩ <;> rw [Token.fitsStandaloneLine, hkind] <;>
    rfl

/-- The tags of sections stay when text is taken away. -/
theorem dropText_cons (indent : List Char) (ts : List Token) :
    dropText indent (t :: ts) = t :: dropText indent ts := by
  rcases h with ⟨polarity, name, hkind⟩ | ⟨name, hkind⟩ <;> rw [dropText, hkind]

end IsBracket

/-- A function that puts tokens in place of a token: a text with the same characters in place of a
text, and the tags of sections in place of such a tag. -/
structure Spreads (f : Token → List Token) : Prop where
  keepsFlag : KeepsFlag f
  text : ∀ t, t.kind = .text → ∃ u, f t = [u] ∧ u.kind = .text ∧ u.whole.text = t.whole.text
  bracket : ∀ t, t.IsBracket → ∀ u ∈ f t, u.IsBracket

namespace Spreads

variable {f : Token → List Token} (hf : Spreads f) {ts : List Token}

include hf

/-- A line is standalone if it is after the replacement. -/
theorem isStandaloneLine_flatMap (hline : AreBracketed ts) :
    isStandaloneLine (ts.flatMap f) = isStandaloneLine ts := by
  have hany : ∀ t ∈ ts, (f t).any (fun u => u.kind.isStandalone) = t.kind.isStandalone := by
    intro t ht
    rcases hline t ht with hkind | hbracket
    · obtain ⟨u, hu, hukind, -⟩ := hf.text t hkind
      rw [hu, hkind, List.any_cons, hukind]
      rfl
    · obtain ⟨u, us, hu, -⟩ := hf.keepsFlag t
      have hfirst := (hf.bracket t hbracket u (by simp [hu])).isStandalone
      rw [hbracket.isStandalone, hu, List.any_cons, hfirst, Bool.true_or]
  have hall : ∀ t ∈ ts, (f t).all Token.fitsStandaloneLine = t.fitsStandaloneLine := by
    intro t ht
    rcases hline t ht with hkind | hbracket
    · obtain ⟨u, hu, hukind, htext⟩ := hf.text t hkind
      simp [hu, Token.fitsStandaloneLine, hukind, hkind, htext]
    · rw [hbracket.fitsStandaloneLine, List.all_eq_true]
      exact fun u hu => (hf.bracket t hbracket u hu).fitsStandaloneLine
  rw [isStandaloneLine, isStandaloneLine, List.any_flatMap, List.all_flatMap]
  congr 1
  · rw [Bool.eq_iff_iff, List.any_eq_true, List.any_eq_true]
    exact exists_congr fun t => and_congr_right fun ht => by rw [hany t ht]
  · rw [Bool.eq_iff_iff, List.all_eq_true, List.all_eq_true]
    exact forall₂_congr fun t ht => by rw [hall t ht]

/-- Text is taken away as it is before the replacement. -/
theorem dropText_flatMap (hline : AreBracketed ts) (indent : List Char) :
    dropText indent (ts.flatMap f) = (dropText indent ts).flatMap f := by
  induction ts generalizing indent with
  | nil => rfl
  | cons t ts ih =>
    have hrest : AreBracketed ts := fun u hu => hline u (List.mem_cons_of_mem _ hu)
    rw [List.flatMap_cons]
    rcases hline t List.mem_cons_self with hkind | hbracket
    · obtain ⟨u, hu, hukind, htext⟩ := hf.text t hkind
      rw [hu, List.singleton_append, dropText, hukind, dropText, hkind, htext]
      exact ih hrest _
    · have happend : ∀ us : List Token, (∀ u ∈ us, u.IsBracket) →
          dropText indent (us ++ ts.flatMap f) = us ++ dropText indent (ts.flatMap f) := by
        intro us hus
        induction us with
        | nil => rfl
        | cons u us ihus =>
          rw [List.cons_append, (hus u List.mem_cons_self).dropText_cons,
            ihus fun v hv => hus v (List.mem_cons_of_mem _ hv), List.cons_append]
      rw [happend _ (hf.bracket t hbracket), hbracket.dropText_cons, List.flatMap_cons, ih hrest]

/-- Lines are settled as they are before the replacement. -/
theorem settle_flatMap (h : AreBracketed ts) : settle (ts.flatMap f) = (settle ts).flatMap f := by
  rw [settle, settle, hf.keepsFlag.lines_flatMap, List.flatMap_map, List.flatMap_assoc]
  apply List.flatMap_congr
  intro line hline
  have hbracketed : AreBracketed line := fun t ht => h t (mem_of_mem_lines hline ht)
  rw [settleLine, settleLine, hf.isStandaloneLine_flatMap hbracketed]
  split
  · exact hf.dropText_flatMap hbracketed []
  · rfl

end Spreads

end Token

/-! ## Lines of nests -/

/-- A tag ends with its right marker. -/
theorem endNoLine_tag (sigil : Sigil) (name : List Char) :
    EndNoLine [.tag .standard sigil name] := by
  refine List.forall_mem_singleton.2 ?_
  obtain ⟨front, hfront⟩ : ∃ front, sigil.terminator .standard = front ++ ['}'] := by
    cases sigil with
    | brace => exact ⟨['}', '}'], rfl⟩
    | equals => exact ⟨['=', '}'], rfl⟩
    | _ => exact ⟨['}'], rfl⟩
  rw [Lexeme.chars, hfront, ← List.append_assoc name, ← List.append_assoc sigil.mark,
    ← List.append_assoc Delimiters.standard.left.chars, List.getLast?_concat]
  rfl

/-- The lexemes are tags of sections. -/
def AreSectionTags (ls : List Lexeme) : Prop :=
  ∀ l ∈ ls, ∃ sigil ∈ [Sigil.hash, .caret, .slash], ∃ name, l = .tag .standard sigil name

theorem AreSectionTags.endNoLine {ls : List Lexeme} (h : AreSectionTags ls) : EndNoLine ls := by
  intro l hl
  obtain ⟨sigil, -, name, rfl⟩ := h l hl
  exact endNoLine_tag sigil name _ List.mem_cons_self

theorem AreSectionTags.append {xs ys : List Lexeme} (hxs : AreSectionTags xs)
    (hys : AreSectionTags ys) : AreSectionTags (xs ++ ys) :=
  List.forall_mem_append.2 ⟨hxs, hys⟩

theorem areSectionTags_openings (outer : List Segment) : AreSectionTags (openings outer) := by
  intro l hl
  obtain ⟨k, -, rfl⟩ := List.mem_map.1 hl
  exact ⟨.hash, by decide, k.chars, rfl⟩

theorem areSectionTags_closings (outer : List Segment) : AreSectionTags (closings outer) := by
  intro l hl
  obtain ⟨k, -, rfl⟩ := List.mem_map.1 (List.mem_reverse.1 hl)
  exact ⟨.slash, by decide, k.chars, rfl⟩

namespace Token

/-- The tags of sections begin a line at most with the first of them. -/
theorem exists_ofLexemes_eq_cons {ls : List Lexeme} (h : AreSectionTags ls) (hne : ls ≠ [])
    (start : Nat) (beginsLine : Bool) :
    ∃ u us, ofLexemes start beginsLine ls = u :: us ∧ u.beginsLine = beginsLine ∧
      ∀ v ∈ us, v.beginsLine = false := by
  have htail := beginsLine_of_mem_tail_ofLexemes h.endNoLine.dropLast start beginsLine
  obtain ⟨l, ls, rfl⟩ := List.exists_cons_of_ne_nil hne
  exact ⟨_, _, rfl, rfl, htail⟩

/-- The tokens of the tags of sections open or close sections. -/
theorem isBracket_of_mem_ofLexemes {ls : List Lexeme} (h : AreSectionTags ls) {start : Nat}
    {beginsLine : Bool} {t : Token} (ht : t ∈ ofLexemes start beginsLine ls) : t.IsBracket := by
  obtain ⟨l, hl, hkind, -⟩ := exists_of_mem_ofLexemes ht
  obtain ⟨sigil, hsigil, name, rfl⟩ := h l hl
  rw [IsBracket, hkind]
  simp only [List.mem_cons, List.not_mem_nil, or_false] at hsigil
  rcases hsigil with rfl | rfl | rfl
  · exact .inl ⟨_, _, rfl⟩
  · exact .inl ⟨_, _, rfl⟩
  · exact .inr ⟨_, rfl⟩

/-- A token of text that begins later by an offset. -/
def shiftText (k : Nat) (t : Token) : Token :=
  { t with whole := t.whole.shift k }

/-- Text that is placed later becomes tokens that are later. -/
theorem ofLexemes_text_shift (k start : Nat) (beginsLine : Bool) (texts : List (List Char)) :
    ofLexemes (start + k) beginsLine (texts.map Lexeme.text) =
      (ofLexemes start beginsLine (texts.map Lexeme.text)).map (shiftText k) := by
  induction texts generalizing start beginsLine with
  | nil => rfl
  | cons text texts ih =>
    have hrest := ih (start + Text.byteLength text) (text.getLast? == some '\n')
    rw [Nat.add_right_comm] at hrest
    exact congrArg (List.cons _) hrest

end Token

/-! ## The tokens of a nest around a text -/

namespace LiteralText

variable (body : LiteralText)

/-- A tag that opens a section, in place of which the open tags of a nest stand. -/
def opening : Token :=
  ⟨.sectionOpen .upright ⟨0, []⟩, ⟨0, []⟩, true⟩

/-- A tag behind the text that closes a section, in place of which the close tags of a nest
stand. -/
def closing : Token :=
  ⟨.sectionClose ⟨0, []⟩, ⟨0, []⟩, Token.flagBehind false body.lexemes⟩

/-- The text between an open tag and a close tag. -/
def frame : List Token :=
  opening :: (Token.ofLexemes 0 false body.lexemes ++ [body.closing])

theorem kind_of_mem_ofLexemes {t : Token} (ht : t ∈ Token.ofLexemes 0 false body.lexemes) :
    t.kind = .text := by
  obtain ⟨texts, htexts⟩ := body.exists_lexemes_eq
  rw [htexts] at ht
  exact Token.kind_of_mem_ofLexemes_text ht

theorem areBracketed_frame : Token.AreBracketed body.frame := by
  refine List.forall_mem_cons.2 ⟨.inr (.inl ⟨_, _, rfl⟩), ?_⟩
  intro t ht
  rcases List.mem_append.1 ht with ht | ht
  · exact .inl (body.kind_of_mem_ofLexemes ht)
  · rw [List.mem_singleton.1 ht]
    exact .inr (.inr ⟨_, rfl⟩)

/-- Lines are settled so that some of the text is left. -/
theorem exists_settle_frame : ∃ kept : List Token, (∀ t ∈ kept, t.kind = .text) ∧
    Token.settle body.frame = opening :: (kept ++ [body.closing]) := by
  have hunindented : Token.Unindented body.frame := by
    intro t ht name indent hkind
    rcases body.areBracketed_frame t ht with h | ⟨_, _, h⟩ | ⟨_, h⟩ <;> rw [h] at hkind <;>
      cases hkind
  have hsettles := Token.settlesTo_settle hunindented
  generalize Token.settle body.frame = settled at hsettles ⊢
  cases hsettles with
  | taken h => cases h
  | indented _ h => cases h
  | kept _ hrest =>
    obtain ⟨kept, last, rfl, hkept, hlast⟩ := hrest.exists_append
    refine ⟨kept, hkept.forall_text fun t ht => body.kind_of_mem_ofLexemes ht, ?_⟩
    cases hlast with
    | kept _ hnil =>
      cases hnil
      rfl
    | taken h => cases h
    | indented _ h => cases h

/-! ## The tokens of a nest -/

variable (outer : List Segment) (polarity : Polarity) (name : List Char)

/-- The tags in front of the text in a nest. -/
def front : List Lexeme :=
  openings outer ++ [.tag .standard polarity.sigil name]

/-- The tags behind the text in a nest. -/
def back : List Lexeme :=
  .tag .standard .slash name :: closings outer

/-- Where the text stands in a nest. -/
def offset : Nat :=
  Text.byteLength ((front outer polarity name).flatMap Lexeme.chars)

/-- Where the text ends in a nest. -/
def stop : Nat :=
  offset outer polarity name + Text.byteLength (body.lexemes.flatMap Lexeme.chars)

/-- What stands in a nest in place of a token of the frame. -/
def inNest (t : Token) : List Token :=
  match t.kind with
  | .text => [t.shiftText (offset outer polarity name)]
  | .sectionOpen .. => Token.ofLexemes 0 t.beginsLine (front outer polarity name)
  | .sectionClose _ =>
    Token.ofLexemes (body.stop outer polarity name) t.beginsLine (back outer name)
  | _ => [t]

theorem areSectionTags_front : AreSectionTags (front outer polarity name) := by
  refine (areSectionTags_openings outer).append ?_
  intro l hl
  exact ⟨polarity.sigil, by cases polarity <;> decide, name, List.mem_singleton.1 hl⟩

theorem areSectionTags_back : AreSectionTags (back outer name) :=
  List.forall_mem_cons.2 ⟨⟨.slash, by decide, name, rfl⟩, areSectionTags_closings outer⟩

theorem spreads_inNest : Token.Spreads (body.inNest outer polarity name) where
  keepsFlag t := by
    unfold inNest
    split
    · exact ⟨_, [], rfl, rfl, by simp⟩
    · exact Token.exists_ofLexemes_eq_cons (areSectionTags_front outer polarity name)
        (by simp [front]) _ _
    · exact Token.exists_ofLexemes_eq_cons (areSectionTags_back outer name) (by simp [back]) _ _
    · exact ⟨t, [], rfl, rfl, by simp⟩
  text t ht := ⟨t.shiftText (offset outer polarity name), by rw [inNest, ht], ht, rfl⟩
  bracket t ht u hu := by
    rcases ht with ⟨_, _, hkind⟩ | ⟨_, hkind⟩
    · rw [inNest, hkind] at hu
      exact Token.isBracket_of_mem_ofLexemes (areSectionTags_front outer polarity name) hu
    · rw [inNest, hkind] at hu
      exact Token.isBracket_of_mem_ofLexemes (areSectionTags_back outer name) hu

/-- Text stays text, at another place. -/
theorem flatMap_inNest_of_forall_text {ts : List Token} (h : ∀ t ∈ ts, t.kind = .text) :
    ts.flatMap (body.inNest outer polarity name) =
      ts.map (Token.shiftText (offset outer polarity name)) := by
  rw [List.map_eq_flatMap]
  apply List.flatMap_congr
  intro t ht
  rw [inNest, h t ht]

/-- The tokens of a nest stand in place of those of the frame. -/
theorem flatMap_frame : body.frame.flatMap (body.inNest outer polarity name) =
    Token.ofLexemes 0 true
      (openings outer ++ ((Usage.block polarity body).lexemes name ++ closings outer)) := by
  have hlexemes : openings outer ++ ((Usage.block polarity body).lexemes name ++ closings outer) =
      front outer polarity name ++ (body.lexemes ++ back outer name) := by
    simp [Usage.lexemes, front, back]
  have hflag : Token.flagBehind true (front outer polarity name) = false :=
    Token.flagBehind_of_endNoLine (areSectionTags_front outer polarity name).endNoLine
      (by simp [front]) _
  have htext : Token.ofLexemes (offset outer polarity name) false body.lexemes =
      (Token.ofLexemes 0 false body.lexemes).map
        (Token.shiftText (offset outer polarity name)) := by
    obtain ⟨texts, htexts⟩ := body.exists_lexemes_eq
    rw [htexts, ← Token.ofLexemes_text_shift, Nat.zero_add]
  rw [hlexemes, Token.ofLexemes_append, Token.ofLexemes_append, hflag, Nat.zero_add, ← offset,
    htext, frame, List.flatMap_cons, List.flatMap_append,
    body.flatMap_inNest_of_forall_text outer polarity name fun t ht =>
      body.kind_of_mem_ofLexemes ht, List.flatMap_singleton]
  rfl

/-- In every nest, the same tokens of the text are left between the tags. -/
theorem exists_settle_nest : ∃ kept : List Token, (∀ t ∈ kept, t.kind = .text) ∧
    ∀ (outer : List Segment) (polarity : Polarity) (name : List Char),
      Token.settle (Token.ofLexemes 0 true
          (openings outer ++ ((Usage.block polarity body).lexemes name ++ closings outer))) =
        Token.ofLexemes 0 true (front outer polarity name) ++
          (kept.map (Token.shiftText (offset outer polarity name)) ++
            Token.ofLexemes (body.stop outer polarity name) (Token.flagBehind false body.lexemes)
              (back outer name)) := by
  obtain ⟨kept, hkept, hframe⟩ := body.exists_settle_frame
  refine ⟨kept, hkept, ?_⟩
  intro outer polarity name
  rw [← body.flatMap_frame, (body.spreads_inNest outer polarity name).settle_flatMap
    body.areBracketed_frame, hframe, List.flatMap_cons, List.flatMap_append,
    body.flatMap_inNest_of_forall_text outer polarity name hkept, List.flatMap_singleton]
  rfl

end LiteralText

/-! ## What nests compile to -/

/-- Some instructions stand inside sections with the names of segments, each inside the one before,
and nothing else does. -/
inductive Instr.InNest (inner : List Instr) : List Segment → List Instr → Prop
  | nil : InNest inner [] inner
  | cons {k : Segment} {outer : List Segment} {is : List Instr} {name : Fragment} (raw : Fragment)
      (hname : name.text = k.chars) (h : InNest inner outer is) :
      InNest inner (k :: outer) [.block .upright (Reference.ofName name) raw is]

/-- The instruction that uses a name, up to places; inside a section there is this text, shifted. -/
inductive Usage.Core (text : List Instr) (name : List Char) : Usage → Instr → Prop
  | interpolation {form : VariableForm} {place : Fragment} (h : place.text = name) :
      Core text name (.interpolation form)
        (.interpolation form.escaping (Reference.ofName place))
  | block {polarity : Polarity} {body : LiteralText} {place : Fragment} (raw : Fragment) (k : Nat)
      (h : place.text = name) :
      Core text name (.block polarity body)
        (.block polarity (Reference.ofName place) raw (text.map (Instr.shift k)))

namespace Grows

/-- Text grows into texts. -/
theorem of_forall_text {ts : List Token} (h : ∀ t ∈ ts, t.kind = .text) :
    Grows ts (ts.map fun t => .text t.whole) := by
  induction ts with
  | nil => exact .nil
  | cons t ts ih =>
    obtain ⟨ht, hts⟩ := List.forall_mem_cons.1 h
    exact .leaf (by rw [Token.leaf?, ht]) (ih hts)

/-- Tokens between the tags of sections grow into nodes inside these sections. -/
theorem exists_nest {inner : List Token} {ns : List Node} (h : Grows inner ns)
    (outer : List Segment) (start stop : Nat) (beginsLine beginsLine' : Bool) :
    ∃ ms, Grows (Token.ofLexemes start beginsLine (openings outer) ++
        (inner ++ Token.ofLexemes stop beginsLine' (closings outer))) ms ∧
      ∀ source, Instr.InNest (Instr.ofNodes source ns) outer (Instr.ofNodes source ms) := by
  induction outer generalizing start beginsLine with
  | nil =>
    refine ⟨ns, ?_, fun source => .nil⟩
    simpa [openings, closings, Token.ofLexemes] using h
  | cons k outer ih =>
    let hash : Lexeme := .tag .standard .hash k.chars
    let slash : Lexeme := .tag .standard .slash k.chars
    have hopenings : openings (k :: outer) = hash :: openings outer := rfl
    have hclosings : closings (k :: outer) = closings outer ++ [slash] := by
      simp [closings, slash]
    obtain ⟨ms, hms, hnest⟩ := ih (start + Text.byteLength hash.chars)
      (hash.chars.getLast? == some '\n')
    let hplace : Fragment := Fragment.trimmed
      ⟨start + Text.byteLength Delimiters.standard.left.chars + Text.byteLength Sigil.hash.mark,
        k.chars⟩
    let whole : Fragment := ⟨start, hash.chars⟩
    refine ⟨[.block .upright hplace whole
      ⟨stop + Text.byteLength ((closings outer).flatMap Lexeme.chars), slash.chars⟩ ms], ?_, ?_⟩
    · rw [hopenings, hclosings, Token.ofLexemes_append, Token.ofLexemes, List.cons_append,
        ← List.append_assoc inner, ← List.append_assoc]
      exact .block rfl rfl rfl hms .nil
    · exact fun source => .cons _ k.isTagName.trim (hnest source)

end Grows

namespace Instr

/-- Texts have instructions of text. -/
theorem forall_text_ofNodes (source : List Char) (ts : List Token) :
    ∀ i ∈ ofNodes source (ts.map fun t => .text t.whole), ∃ whole, i = .text whole := by
  intro i hi
  rcases exists_of_mem_ofNodes hi with htext | ⟨n, hn, rfl⟩
  · exact htext
  · obtain ⟨t, -, rfl⟩ := List.mem_map.1 hn
    exact ⟨t.whole, rfl⟩

/-- Texts have the same instructions wherever they stand. -/
theorem ofNodes_text_shift (source : List Char) (k : Nat) (ts : List Token) :
    ofNodes source (ts.map fun t => .text (t.whole.shift k)) =
      (ofNodes [] (ts.map fun t => .text t.whole)).map (shift k) := by
  induction ts with
  | nil => rfl
  | cons t ts ih =>
    rw [List.map_cons, List.map_cons, ofNodes, ofNodes, ih, ← shiftAll_eq_map, ← shiftAll_eq_map,
      shiftAll_cons]
    rfl

end Instr

namespace Usage

variable {name : List Char}

/-- A nest whose tokens settle to the tags of the sections, and between them to tokens that grow
into a node, compiles to sections around the instruction for the node. -/
theorem exists_compile_of_settle (use : Usage) (h : IsTagName name) (outer : List Segment)
    {inner : List Token} {n : Node} (hgrows : Grows inner [n]) {start stop : Nat}
    {beginsLine beginsLine' : Bool}
    (hsettle : Token.settle (Token.ofLexemes 0 true
        (openings outer ++ (use.lexemes name ++ closings outer))) =
      Token.ofLexemes start beginsLine (openings outer) ++
        (inner ++ Token.ofLexemes stop beginsLine' (closings outer))) :
    ∃ t, Template.compile .standard (String.ofList (use.nested name outer)) = .ok t ∧
      Instr.InNest [Instr.ofNode (use.nested name outer) n] outer t.program := by
  obtain ⟨ms, hms, hnest⟩ := hgrows.exists_nest outer start stop beginsLine beginsLine'
  rw [← hsettle] at hms
  have hstream := use.ofSource_nested h outer
  rw [← String.toList_ofList (l := use.nested name outer)] at hstream
  refine ⟨_, Template.compile_of_ofTokens hstream (Node.ofTokens_eq_ok_iff.2 hms), ?_⟩
  have hone : Instr.ofNodes (use.nested name outer) [n] =
      [Instr.ofNode (use.nested name outer) n] := by
    rw [Instr.ofNodes, Instr.ofNodes]
    cases n <;> rfl
  rw [← hone]
  simpa using hnest (use.nested name outer)

/-- A variable tag stays where it is, with the tags of the sections around it. -/
theorem settle_interpolation (form : VariableForm) (name : List Char) (outer : List Segment) :
    Token.settle (Token.ofLexemes 0 true
        (openings outer ++ ((interpolation form).lexemes name ++ closings outer))) =
      Token.ofLexemes 0 true
        (openings outer ++ ((interpolation form).lexemes name ++ closings outer)) := by
  let tag : Lexeme := .tag .standard form.sigil name
  have hends : EndNoLine (openings outer ++ ([tag] ++ closings outer)) :=
    (areSectionTags_openings outer).endNoLine.append
      ((endNoLine_tag form.sigil name).append (areSectionTags_closings outer).endNoLine)
  have hlines := Token.lines_ofLexemes hends.dropLast (by simp) 0 true
  rw [lexemes]
  generalize htokens : Token.ofLexemes 0 true (openings outer ++ ([tag] ++ closings outer)) = ts
    at hlines
  have hstandalone : Token.isStandaloneLine ts = false := by
    have hfits : ∀ s b, (Token.ofLexemes s b [tag]).all Token.fitsStandaloneLine = false := by
      intro s b
      cases form <;> rfl
    rw [← htokens, Token.ofLexemes_append, Token.ofLexemes_append]
    simp [Token.isStandaloneLine, hfits]
  rw [Token.settle, hlines, List.flatMap_singleton,
    Token.settleLine_of_not_isStandaloneLine hstandalone]

/-- What a variable tag in a nest compiles to. -/
theorem exists_compile_interpolation (form : VariableForm) (h : IsTagName name)
    (outer : List Segment) (text : List Instr) :
    ∃ t core, Template.compile .standard
        (String.ofList ((interpolation form).nested name outer)) = .ok t ∧
      Core text name (.interpolation form) core ∧ Instr.InNest [core] outer t.program := by
  let start := 0 + Text.byteLength ((openings outer).flatMap Lexeme.chars)
  let place : Fragment := Fragment.trimmed
    ⟨start + Text.byteLength Delimiters.standard.left.chars + Text.byteLength form.sigil.mark, name⟩
  let tag : Lexeme := .tag .standard form.sigil name
  have hgrows : Grows (Token.ofLexemes start (Token.flagBehind true (openings outer)) [tag])
      [.interpolation form.escaping place ⟨start, tag.chars⟩] := by
    refine .leaf ?_ .nil
    cases form <;> rfl
  have hsettle := settle_interpolation form name outer
  rw [lexemes] at hsettle
  conv_rhs at hsettle => rw [Token.ofLexemes_append, Token.ofLexemes_append]
  obtain ⟨t, ht, hnest⟩ := (interpolation form).exists_compile_of_settle h outer hgrows hsettle
  exact ⟨t, _, ht, .interpolation h.trim, hnest⟩

/-- What a section around a text in a nest compiles to. -/
theorem exists_compile_block (polarity : Polarity) (body : LiteralText) :
    ∃ text : List Instr, (∀ i ∈ text, ∃ whole, i = .text whole) ∧
      ∀ (outer : List Segment) (name : List Char), IsTagName name →
        ∃ t core, Template.compile .standard
            (String.ofList ((block polarity body).nested name outer)) = .ok t ∧
          Core text name (.block polarity body) core ∧ Instr.InNest [core] outer t.program := by
  obtain ⟨kept, hkept, hsettle⟩ := body.exists_settle_nest
  refine ⟨Instr.ofNodes [] (kept.map fun t => .text t.whole), Instr.forall_text_ofNodes _ _, ?_⟩
  intro outer name h
  let k := LiteralText.offset outer polarity name
  let start := 0 + Text.byteLength ((openings outer).flatMap Lexeme.chars)
  let stop := body.stop outer polarity name
  let open' : Lexeme := .tag .standard polarity.sigil name
  let close' : Lexeme := .tag .standard .slash name
  let place : Fragment := Fragment.trimmed ⟨start + Text.byteLength Delimiters.standard.left.chars +
    Text.byteLength polarity.sigil.mark, name⟩
  have htexts : Grows (kept.map (Token.shiftText k))
      (kept.map fun t => .text (t.whole.shift k)) := by
    have hshifted : ∀ t ∈ kept.map (Token.shiftText k), t.kind = .text := by
      simpa [Token.shiftText] using hkept
    simpa [Token.shiftText, Function.comp_def] using Grows.of_forall_text hshifted
  have hgrows : Grows (Token.ofLexemes start (Token.flagBehind true (openings outer)) [open'] ++
      (kept.map (Token.shiftText k) ++
        Token.ofLexemes stop (Token.flagBehind false body.lexemes) [close']))
      [.block polarity place ⟨start, open'.chars⟩ ⟨stop, close'.chars⟩
        (kept.map fun t => .text (t.whole.shift k))] := by
    refine .block ?_ rfl rfl htexts .nil
    cases polarity <;> rfl
  have hnest := hsettle outer polarity name
  conv_rhs at hnest =>
    rw [LiteralText.front, Token.ofLexemes_append, LiteralText.back,
      ← List.singleton_append (l := closings outer), Token.ofLexemes_append, List.append_assoc,
      ← List.append_assoc (kept.map _), ← List.append_assoc (Token.ofLexemes _ _ [open'])]
  obtain ⟨t, ht, hprogram⟩ := (block polarity body).exists_compile_of_settle h outer hgrows hnest
  refine ⟨t, _, ht, ?_, hprogram⟩
  rw [Instr.ofNode, Instr.ofNodes_text_shift]
  exact .block _ k h.trim

/-- What a nest compiles to: sections around an instruction that is the same, up to its name and its
place, in every nest in which the use of the name is the same. -/
theorem exists_compile (use : Usage) :
    ∃ text : List Instr, (∀ i ∈ text, ∃ whole, i = .text whole) ∧
      ∀ (outer : List Segment) (name : List Char), IsTagName name →
        ∃ t core, Template.compile .standard (String.ofList (use.nested name outer)) = .ok t ∧
          use.Core text name core ∧ Instr.InNest [core] outer t.program := by
  cases use with
  | interpolation form =>
    exact ⟨[], by simp, fun outer name h => exists_compile_interpolation form h outer []⟩
  | block polarity body => exact exists_compile_block polarity body

end Usage

end Mustache
