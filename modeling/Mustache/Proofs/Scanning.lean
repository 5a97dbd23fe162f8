import Mustache.Proofs.Scanner

/-!
# What the scanner finds

The scanner moves byte by byte, and finds what is read by characters.  Only at a boundary
is there a newline or the beginning of a marker, so inside a character it goes on; between
two characters it stands behind some text in which no line ends and no tag begins.  Every
cut that it makes is defined: it comes to the tokens of the source, or to its flaw.

Main results:

- Theorem `Scanner.run_skip`: a character of text is passed over.
- Theorem `Scanner.Pending.run_eq`: from text on, the scanner finds what is left to be read.
- Theorem `Scanner.tokenize_eq`: the scanner finds the tokens of a source, or its flaw.
-/

namespace Mustache

open Text

namespace Scanner

/-! ## Beginnings of lines -/

section

variable {st : State} {passed : List Char}

/-- A newline is the byte in front of an offset exactly where a newline is the last character. -/
theorem peekBack?_eq_newline_iff (passed rest : List Char) :
    byteLength passed = 0 ∨ peekBack? (passed ++ rest) (byteLength passed) = some 10 ↔
      EndsLine passed := by
  rcases List.eq_nil_or_concat' passed with rfl | ⟨before, c, rfl⟩
  · simp [EndsLine]
  · have hsize := c.utf8Size_pos
    have hlength : byteLength (before ++ [c]) = byteLength before + c.utf8Size := by simp
    have hback : peekBack? (before ++ [c] ++ rest) (byteLength (before ++ [c])) =
        (encode (c :: rest))[c.utf8Size - 1]? := by
      rw [peekBack?, if_neg (by omega), hlength, Nat.add_sub_assoc hsize, List.append_assoc]
      exact peek?_append before (c :: rest) (c.utf8Size - 1)
    have hnewline : (encode (c :: rest))[c.utf8Size - 1]? = some 10 ↔
        c.utf8Size - 1 = 0 ∧ c = '\n' :=
      getElem?_encode_eq_ascii_iff (a := '\n') rfl (Nat.sub_lt hsize Nat.one_pos)
    rw [hback, hnewline, endsLine_append_iff (List.cons_ne_nil c [])]
    constructor
    · rintro (hzero | ⟨-, rfl⟩)
      · omega
      · rfl
    · intro hlast
      obtain rfl : c = '\n' := by simpa using hlast
      exact .inr ⟨rfl, rfl⟩

/-- Where a line begins, the scanner takes notice of it. -/
theorem State.mark_of_endsLine (hpos : st.pos = byteLength passed) (h : EndsLine passed)
    (rest : List Char) : st.mark (passed ++ rest) = { st with line := st.pos } := by
  rw [mark, if_pos]
  rw [hpos]
  exact (peekBack?_eq_newline_iff passed rest).2 h

theorem State.mark_of_not_endsLine (hpos : st.pos = byteLength passed) (h : ¬ EndsLine passed)
    (rest : List Char) : st.mark (passed ++ rest) = st := by
  rw [mark, if_neg]
  rw [hpos]
  exact mt (peekBack?_eq_newline_iff passed rest).1 h

end

/-! ## Inside a character -/

section

variable {source passed rest : List Char} {st next : State} {c : Char}

/-- No text begins inside a character. -/
theorem startsWith?_inside {n : Nat} (hpos : 0 < n) (hlt : n < c.utf8Size) {lit : List Char}
    (hne : lit ≠ []) :
    startsWith? (passed ++ c :: rest) (byteLength passed + n) lit = some false := by
  obtain ⟨d, ds, rfl⟩ := List.exists_cons_of_ne_nil hne
  have hsize := d.utf8Size_pos
  have hlength : byteLength passed + n ≤ byteLength (passed ++ c :: rest) := by
    simp only [byteLength_append, byteLength_cons]
    omega
  rw [startsWith?, if_pos hlength, Option.some.injEq, Bool.eq_false_iff, ne_eq,
    List.isPrefixOf_iff_prefix]
  rintro ⟨more, hmore⟩
  have hfirst : (String.utf8EncodeChar d ++ (encode ds ++ more))[0]? =
      (String.utf8EncodeChar c ++ encode rest)[n]? := by
    rw [← List.append_assoc, ← encode_cons, hmore, List.getElem?_drop, Nat.add_zero]
    exact peek?_append passed (c :: rest) n
  cases hbyte : (String.utf8EncodeChar d ++ (encode ds ++ more))[0]? with
  | none =>
    rw [List.getElem?_eq_none_iff, List.length_append, String.length_utf8EncodeChar] at hbyte
    omega
  | some b =>
    have hisFirst := (eq_zero_of_isFirst hsize hbyte).2 rfl
    rw [hfirst] at hbyte
    have hzero := (eq_zero_of_isFirst hlt hbyte).1 hisFirst
    omega

/-- Inside a character there is neither the beginning nor the end of a line. -/
theorem peek?_inside (passed rest : List Char) {n : Nat} (hpos : 0 < n) (hlt : n < c.utf8Size) :
    peek? (passed ++ c :: rest) (byteLength passed + n) ≠ some 10 ∧
      peekBack? (passed ++ c :: rest) (byteLength passed + n) ≠ some 10 := by
  have hnewline : ∀ k < c.utf8Size, (encode (c :: rest))[k]? = some 10 → k = 0 ∧ c = '\n' :=
    fun k hk => (getElem?_encode_eq_ascii_iff (a := '\n') rfl hk).1
  constructor
  · rw [peek?_append]
    intro h
    have hzero := (hnewline n hlt h).1
    omega
  · rw [peekBack?, if_neg (by omega), Nat.add_sub_assoc hpos, peek?_append]
    intro h
    obtain ⟨-, rfl⟩ := hnewline (n - 1) (by omega) h
    have hone : ('\n').utf8Size = 1 := rfl
    omega

/-- Inside a character nothing is found. -/
theorem step_inside {n : Nat} (hpos : st.pos = byteLength passed + n) (hn : 0 < n)
    (hlt : n < c.utf8Size) :
    st.step (passed ++ c :: rest) = some (.ok { st with pos := st.pos + 1 }) := by
  obtain ⟨hpeek, hback⟩ := peek?_inside passed rest hn hlt
  have hmark : st.mark (passed ++ c :: rest) = st := by
    rw [State.mark, if_neg]
    rw [hpos]
    rintro (hzero | hnewline)
    · omega
    · exact hback hnewline
  have hseek : seek (passed ++ c :: rest) st.pos 1 = st.pos + 1 := by
    rw [seek, Nat.min_eq_left]
    simp only [byteLength_append, byteLength_cons]
    omega
  rw [← hpos] at hpeek
  rw [State.step, hmark, if_neg hpeek, hseek, hpos, startsWith?_inside hn hlt st.live.left.usable.1]

/-! ## Rounds -/

theorem run_of_ok (hpos : st.pos < byteLength source) (h : st.step source = some (.ok next)) :
    run source st = run source next := by
  rw [run, dif_pos hpos]
  split <;> simp_all

theorem run_of_error {flaw : Flaw} (hpos : st.pos < byteLength source)
    (h : st.step source = some (.error flaw)) : run source st = some (.error flaw) := by
  rw [run, dif_pos hpos]
  split <;> simp_all

theorem run_at_end (hpos : st.pos = byteLength source) :
    run source st =
      (st.pushText source (byteLength source)).map fun last => .ok ⟨last.tokens, last.live⟩ := by
  rw [run, dif_neg (by omega)]

/-- The scanner comes from the inside of a character to its end. -/
theorem run_inside {n : Nat} (hpos : st.pos = byteLength passed + n) (hn : 0 < n)
    (hle : n ≤ c.utf8Size) :
    run (passed ++ c :: rest) st =
      run (passed ++ c :: rest) { st with pos := byteLength (passed ++ [c]) } := by
  induction hgap : c.utf8Size - n generalizing n st with
  | zero =>
    have hend : st.pos = byteLength (passed ++ [c]) := by
      simp only [byteLength_append, byteLength_cons, byteLength_nil]
      omega
    rw [← hend]
  | succ k ih =>
    have hlt : n < c.utf8Size := by omega
    have hmore : st.pos < byteLength (passed ++ c :: rest) := by
      simp only [byteLength_append, byteLength_cons]
      omega
    rw [run_of_ok hmore (step_inside hpos hn hlt)]
    exact ih (n := n + 1) (by rw [hpos, Nat.add_assoc]) (Nat.succ_pos n) hlt (by omega)

/-- A character is passed over if it neither ends a line nor begins a tag. -/
theorem run_skip (hpos : st.pos = byteLength passed) (hnewline : c ≠ '\n')
    (hno : ¬ st.live.left.chars <+: c :: rest) :
    run (passed ++ c :: rest) st = run (passed ++ c :: rest)
      { st.mark (passed ++ c :: rest) with pos := byteLength (passed ++ [c]) } := by
  have hsize := c.utf8Size_pos
  have hmore : st.pos < byteLength (passed ++ c :: rest) := by
    simp only [byteLength_append, byteLength_cons]
    omega
  have hpeek : peek? (passed ++ c :: rest) st.pos ≠ some 10 := by
    rw [hpos, peek?_behind]
    intro h
    exact hnewline ((getElem?_encode_eq_ascii_iff (a := '\n') rfl hsize).1 h).2
  have hseek : seek (passed ++ c :: rest) st.pos 1 = byteLength passed + 1 := by
    rw [seek, hpos, Nat.min_eq_left]
    simp only [byteLength_append, byteLength_cons]
    omega
  have hfalse : st.live.left.chars.isPrefixOf (c :: rest) = false := by
    rwa [Bool.eq_false_iff, ne_eq, List.isPrefixOf_iff_prefix]
  have hstep : st.step (passed ++ c :: rest) = some (.ok
      { st.mark (passed ++ c :: rest) with pos := byteLength passed + 1 }) := by
    rw [State.step]
    dsimp only
    rw [State.mark_pos, State.mark_live, if_neg hpeek, hseek, hpos, startsWith?_append, hfalse]
  rw [run_of_ok hmore hstep]
  exact run_inside (n := 1) rfl Nat.one_pos hsize

end

/-! ## Runs of text -/

/-- Text in which no line ends and no tag begins is part of the run of text that it begins. -/
theorem textRun_append_of_clear {left text after : List Char} (hnewline : '\n' ∉ text)
    (hclear : Clear left text after) :
    Step.textRun left (text ++ after) =
      (text ++ (Step.textRun left after).1, (Step.textRun left after).2) := by
  induction text with
  | nil => rfl
  | cons c cs ih =>
    rw [List.mem_cons, not_or] at hnewline
    have hno : ¬ left.isPrefixOf (c :: cs ++ after) = true := by
      rw [List.isPrefixOf_iff_prefix]
      exact hclear [] (c :: cs) rfl (by simp)
    rw [List.cons_append] at hno ⊢
    rw [Step.textRun, if_neg (Ne.symm hnewline.1), if_neg hno, ih hnewline.2 (hclear.of_append [c])]
    rfl

/-- A clear text stays clear with the next character, if no marker begins there. -/
theorem clear_concat {marker text cs : List Char} {c : Char}
    (h : Clear marker text (c :: cs)) (hno : ¬ marker <+: c :: cs) :
    Clear marker (text ++ [c]) cs := by
  intro t₁ t₂ hsplit hne
  rcases List.eq_nil_or_concat' t₂ with rfl | ⟨t₂, d, rfl⟩
  · exact absurd rfl hne
  · rw [← List.append_assoc] at hsplit
    obtain ⟨rfl, heq⟩ := List.append_inj' hsplit rfl
    obtain rfl : c = d := by simpa using heq
    rw [List.append_assoc]
    by_cases hempty : t₂ = []
    · rwa [hempty]
    · exact h t₁ t₂ rfl hempty

/-- No marker begins with a newline. -/
theorem not_prefix_newline (m : Marker) (cs : List Char) : ¬ m.chars <+: '\n' :: cs := by
  obtain ⟨c, rest, hchars, hblank⟩ := m.exists_cons
  rw [hchars, List.cons_prefix_cons]
  rintro ⟨rfl, -⟩
  exact absurd hblank (by decide)

/-- Where no tag begins, a run of text is read. -/
theorem read_of_no_tag {live : Delimiters} {cs : List Char} (hne : cs ≠ [])
    (hno : ¬ live.left.chars <+: cs) :
    Step.read live cs = .lexeme (.text (Step.textRun live.left.chars cs).1) live
      (Step.textRun live.left.chars cs).2 := by
  cases cs with
  | nil => exact absurd rfl hne
  | cons c cs => rw [Step.read, if_neg (mt List.isPrefixOf_iff_prefix.1 hno)]

/-! ## The way through a source -/

/-- What is found in the end: the tokens so far, and those of what was read behind them. -/
def State.finish (st : State) (beginsLine : Bool) (scan : Scan) : Except Flaw Token.Stream :=
  (Token.liveAtEnd (st.start + byteLength (scan.lexemes.flatMap Lexeme.chars)) scan.ending).map
    fun live => ⟨st.tokens ++ Token.ofLexemes st.start beginsLine scan.lexemes, live⟩

/-- A token more, and a lexeme less. -/
theorem State.finish_cons {st next : State} {beginsLine : Bool} {l : Lexeme} (scan : Scan)
    (hstart : next.start = st.start + byteLength l.chars)
    (htokens : next.tokens = st.tokens ++
      [⟨Token.kindOfLexeme st.start l, ⟨st.start, l.chars⟩, beginsLine⟩]) :
    st.finish beginsLine (scan.cons l) = next.finish (l.chars.getLast? == some '\n') scan := by
  have hend : st.start + byteLength ((scan.cons l).lexemes.flatMap Lexeme.chars) =
      next.start + byteLength (scan.lexemes.flatMap Lexeme.chars) := by
    simp [Scan.cons, hstart, Nat.add_assoc]
  have hall : st.tokens ++ Token.ofLexemes st.start beginsLine (scan.cons l).lexemes =
      next.tokens ++ Token.ofLexemes next.start (l.chars.getLast? == some '\n') scan.lexemes := by
    simp [Scan.cons, Token.ofLexemes, htokens, hstart, Fragment.stop]
  rw [finish, finish, hend, hall]
  rfl

/-- The scanner with the text up to an offset cut off. -/
def State.pushed (st : State) (text : List Char) : State :=
  { st with
    start := st.start + byteLength text
    tokens := st.tokens ++
      if text = [] then [] else [⟨.text, ⟨st.start, text⟩, st.start == st.line⟩] }

/-- The scanner behind the newline that ends some text. -/
def State.endLine (st : State) (text : List Char) : State :=
  { st.pushed (text ++ ['\n']) with pos := st.pos + 1 }

/-- Text is cut off where it stands. -/
theorem State.pushText_append {st : State} {passed : List Char}
    (hstart : st.start = byteLength passed) (text after : List Char) :
    st.pushText (passed ++ (text ++ after)) (byteLength (passed ++ text)) =
      some (st.pushed text) := by
  rw [pushText, pushed, hstart, cut?_append, byteLength_append]
  by_cases hempty : text = []
  · simp [hempty]
  · have hpos := byteLength_pos hempty
    rw [if_pos (by omega), if_neg hempty]
    rfl

/-- The scanner stands behind some text that no token covers yet, in which no line ends and no tag
begins.  The flag tells whether the text begins a line. -/
structure Pending (source : List Char) (st : State) (passed text rest : List Char)
    (beginsLine : Bool) : Prop where
  source_eq : source = passed ++ (text ++ rest)
  start : st.start = byteLength passed
  pos : st.pos = byteLength (passed ++ text)
  newline : '\n' ∉ text
  clear : Clear st.live.left.chars text rest
  line_le : (st.mark source).line ≤ st.start
  begins : (st.start == (st.mark source).line) = beginsLine

namespace Pending

variable {source : List Char} {st : State} {passed text rest : List Char} {beginsLine : Bool}

/-- Nothing is pending behind a token. -/
theorem behind (l : Lexeme) (hne : l.chars ≠ []) (hsource : source = passed ++ l.chars ++ rest)
    (hstart : st.start = byteLength (passed ++ l.chars)) (hpos : st.pos = st.start)
    (hline : st.line ≤ byteLength passed) :
    Pending source st (passed ++ l.chars) [] rest (l.chars.getLast? == some '\n') := by
  have hlength := byteLength_pos hne
  rw [byteLength_append] at hstart
  have hends : EndsLine (passed ++ l.chars) ↔ _ := endsLine_append_iff hne
  have hmark : (st.mark source).line ≤ st.start ∧
      (st.start == (st.mark source).line) = (l.chars.getLast? == some '\n') := by
    have hat : st.pos = byteLength (passed ++ l.chars) := by
      rw [hpos, hstart, byteLength_append]
    rw [hsource]
    by_cases hnewline : l.chars.getLast? = some '\n'
    · rw [State.mark_of_endsLine hat (hends.2 hnewline)]
      simp [hpos, hnewline]
    · rw [State.mark_of_not_endsLine hat (mt hends.1 hnewline)]
      have hlt : st.line < st.start := by omega
      simp [hnewline, hlt.le, hlt.ne']
  refine ⟨by simpa using hsource, by simp [hstart], by simp [hpos, hstart], by simp, ?_,
    hmark.1, hmark.2⟩
  intro t₁ t₂ hsplit hne₂
  simp_all

/-- Pending text that is not empty does not end a line. -/
theorem not_endsLine (h : Pending source st passed text rest beginsLine) (hne : text ≠ []) :
    ¬ EndsLine (passed ++ text) := by
  rw [endsLine_append_iff hne]
  exact fun hlast => h.newline (List.mem_of_getLast? hlast)

/-- The text up to the end of its line, or up to the next tag, is pending until it is read. -/
theorem textRun_eq (h : Pending source st passed text rest beginsLine) :
    Step.textRun st.live.left.chars (text ++ rest) =
      (text ++ (Step.textRun st.live.left.chars rest).1,
        (Step.textRun st.live.left.chars rest).2) :=
  textRun_append_of_clear h.newline h.clear

/-- Where text is pending, no tag begins. -/
theorem no_tag (h : Pending source st passed text rest beginsLine) (hne : text ≠ []) :
    ¬ st.live.left.chars <+: text ++ rest :=
  h.clear [] text rfl hne

/-- A character more is pending if it neither ends a line nor begins a tag. -/
theorem skip {c : Char} {cs : List Char}
    (h : Pending source st passed text (c :: cs) beginsLine) (hnewline : c ≠ '\n')
    (hno : ¬ st.live.left.chars <+: c :: cs) :
    Pending source { st.mark source with pos := byteLength (passed ++ text ++ [c]) } passed
      (text ++ [c]) cs beginsLine := by
  have hmem : '\n' ∉ text ++ [c] := by
    simp [h.newline, Ne.symm hnewline]
  have hends : ¬ EndsLine (passed ++ (text ++ [c])) := by
    rw [endsLine_append_iff (by simp), List.getLast?_concat]
    simpa using hnewline
  have hsource : source = (passed ++ (text ++ [c])) ++ cs := by
    rw [h.source_eq]
    simp
  have hsame : ({ st.mark source with pos := byteLength (passed ++ text ++ [c]) } : State).mark
      source = { st.mark source with pos := byteLength (passed ++ text ++ [c]) } := by
    rw [hsource]
    exact State.mark_of_not_endsLine (by simp) hends cs
  refine ⟨by simpa using hsource, ?_, by simp, hmem, ?_, ?_, ?_⟩
  · exact (State.mark_start source st).trans h.start
  · rw [State.mark_live]
    exact clear_concat h.clear hno
  · rw [hsame, State.mark_start]
    exact h.line_le
  · rw [hsame, State.mark_start]
    exact h.begins

/-- At the end of the source, the pending text is cut off. -/
theorem run_end (h : Pending source st passed text [] beginsLine) :
    run source st = some (st.finish beginsLine (Scan.read st.live text)) := by
  have hsource := h.source_eq
  have hpos : st.pos = byteLength source := by
    rw [h.pos, hsource, List.append_nil]
  have hpush := State.pushText_append h.start text []
  rw [← hsource, ← h.pos, hpos] at hpush
  rw [run_at_end hpos, hpush]
  by_cases hempty : text = []
  · have hread : Scan.read st.live text = ⟨[], .finished st.live⟩ := by
      rw [hempty]
      exact Scan.read_of_ended rfl
    rw [hread]
    simp [State.pushed, hempty, State.finish, Token.liveAtEnd, Except.map, Token.ofLexemes]
  · have hstep : Step.read st.live text = .lexeme (.text text) st.live [] := by
      have hread := read_of_no_tag (by simpa using hempty) (h.no_tag hempty)
      rw [h.textRun_eq] at hread
      simpa [Step.textRun] using hread
    have hmark : st.mark source = st := by
      rw [hsource, ← List.append_assoc]
      exact State.mark_of_not_endsLine h.pos (h.not_endsLine hempty) []
    have hbegins := h.begins
    rw [hmark] at hbegins
    have htokens : (st.pushed text).tokens = st.tokens ++
        [⟨Token.kindOfLexeme st.start (.text text), ⟨st.start, text⟩, beginsLine⟩] := by
      rw [State.pushed, if_neg hempty, hbegins]
      rfl
    rw [Scan.read_of_lexeme hstep, State.finish_cons _ rfl htokens, Scan.read_of_ended rfl]
    simp [State.finish, Token.liveAtEnd, Except.map, Token.ofLexemes, State.pushed]

/-- The pending text is read up to the end of its line. -/
theorem read_newline {cs : List Char} (h : Pending source st passed text ('\n' :: cs) beginsLine) :
    Step.read st.live (text ++ '\n' :: cs) = .lexeme (.text (text ++ ['\n'])) st.live cs := by
  have hno : ¬ st.live.left.chars <+: text ++ '\n' :: cs := by
    by_cases hempty : text = []
    · rw [hempty]
      exact not_prefix_newline st.live.left cs
    · exact h.no_tag hempty
  rw [read_of_no_tag (by simp) hno, h.textRun_eq, Step.textRun, if_pos rfl]

/-- At the end of a line, the scanner cuts off the pending text. -/
theorem step_newline {cs : List Char} (h : Pending source st passed text ('\n' :: cs) beginsLine) :
    st.pos < byteLength source ∧
      st.step source = some (.ok ((st.mark source).endLine text)) := by
  have hsource : source = passed ++ ((text ++ ['\n']) ++ cs) := by
    rw [h.source_eq]
    simp
  have hnext : st.pos + 1 = byteLength (passed ++ (text ++ ['\n'])) := by
    have hone : ('\n').utf8Size = 1 := rfl
    rw [h.pos]
    simp [hone, Nat.add_assoc]
  have hmore : st.pos + 1 ≤ byteLength source := by
    rw [hnext, hsource]
    simp
  have hpeek : peek? source st.pos = some 10 := by
    rw [h.pos, h.source_eq, ← List.append_assoc, peek?_behind]
    rfl
  have hpush := State.pushText_append ((State.mark_start source st).trans h.start)
    (text ++ ['\n']) cs
  rw [← hsource, ← hnext] at hpush
  have hseek : seek source st.pos 1 = st.pos + 1 := Nat.min_eq_left hmore
  refine ⟨hmore, ?_⟩
  rw [State.step, State.mark_pos, if_pos hpeek, hpush, Option.map_some, hseek, State.endLine,
    State.mark_pos]

/-- At the end of a line, the pending text becomes a token. -/
theorem behind_newline {cs : List Char}
    (h : Pending source st passed text ('\n' :: cs) beginsLine) :
    Pending source ((st.mark source).endLine text) (passed ++ (text ++ ['\n'])) [] cs true ∧
      st.finish beginsLine (Scan.read st.live (text ++ '\n' :: cs)) =
        ((st.mark source).endLine text).finish true (Scan.read st.live cs) := by
  have hlast : ((Lexeme.text (text ++ ['\n'])).chars.getLast? == some '\n') = true := by
    simp [Lexeme.chars]
  have hstart : ((st.mark source).endLine text).start = st.start + byteLength (text ++ ['\n']) := by
    rw [State.endLine, State.pushed, State.mark_start]
  constructor
  · rw [← hlast]
    refine behind (.text (text ++ ['\n'])) ?_ ?_ ?_ ?_ (h.start ▸ h.line_le)
    · simp [Lexeme.chars]
    · simp [Lexeme.chars, h.source_eq]
    · rw [Lexeme.chars, hstart, h.start, byteLength_append passed]
    · have hone : ('\n').utf8Size = 1 := rfl
      rw [hstart, h.start, State.endLine, State.mark_pos, h.pos]
      simp [hone, Nat.add_assoc]
  · have htokens : ((st.mark source).endLine text).tokens = st.tokens ++
        [⟨Token.kindOfLexeme st.start (.text (text ++ ['\n'])), ⟨st.start, text ++ ['\n']⟩,
          beginsLine⟩] := by
      rw [← h.begins]
      simp [State.endLine, State.pushed, State.mark_start, State.mark_tokens, Token.kindOfLexeme]
    rw [Scan.read_of_lexeme h.read_newline, State.finish_cons _ hstart htokens, hlast]

/-- In front of a tag, the scanner cuts off the pending text. -/
theorem pushText_eq (h : Pending source st passed text rest beginsLine) :
    (st.mark source).pushText source st.pos = some ((st.mark source).pushed text) := by
  have hpush := State.pushText_append ((State.mark_start source st).trans h.start) text rest
  rwa [← h.source_eq, ← h.pos] at hpush

/-- Behind the pending text, the text begins that comes next. -/
theorem pushed_start (h : Pending source st passed text rest beginsLine) :
    ((st.mark source).pushed text).start = st.pos := by
  rw [State.pushed, State.mark_start, h.start, h.pos, byteLength_append]

/-- In front of a tag, the pending text becomes a token, if it is not empty. -/
theorem finish_pushed {inner : List Char}
    (h : Pending source st passed text (st.live.left.chars ++ inner) beginsLine) :
    st.finish beginsLine (Scan.read st.live (text ++ (st.live.left.chars ++ inner))) =
      ((st.mark source).pushed text).finish (st.pos == (st.mark source).line)
        (Scan.read st.live (st.live.left.chars ++ inner)) := by
  have hstart : st.start + byteLength text = st.pos := by
    rw [h.start, h.pos, byteLength_append]
  by_cases hempty : text = []
  · have hsame : st.start = st.pos := by simpa [hempty] using hstart
    have hbegins := h.begins
    rw [hsame] at hbegins
    rw [hbegins]
    simp [hempty, State.finish, State.pushed, State.mark_start, State.mark_tokens]
  · have hread := read_of_no_tag (by simp [hempty]) (h.no_tag hempty)
    rw [h.textRun_eq, Step.textRun_left_append, List.append_nil] at hread
    have htokens : ((st.mark source).pushed text).tokens = st.tokens ++
        [⟨Token.kindOfLexeme st.start (.text text), ⟨st.start, text⟩, beginsLine⟩] := by
      rw [← h.begins]
      simp [State.pushed, hempty, State.mark_start, State.mark_tokens, Token.kindOfLexeme]
    have hbehind : ((st.mark source).pushed text).start = st.start + byteLength text := by
      rw [State.pushed, State.mark_start]
    have hlast : ((Lexeme.text text).chars.getLast? == some '\n') = false := by
      rw [beq_eq_false_iff_ne]
      exact fun hlast => h.newline (List.mem_of_getLast? hlast)
    have hflag : (st.pos == (st.mark source).line) = false := by
      have hpositive := byteLength_pos hempty
      have hle := h.line_le
      rw [beq_eq_false_iff_ne]
      omega
    rw [Scan.read_of_lexeme hread, State.finish_cons _ hbehind htokens, hlast, hflag]

/-- Where a tag begins, the scanner comes behind it, or to a flaw. -/
theorem step_tag {inner : List Char}
    (h : Pending source st passed text (st.live.left.chars ++ inner) beginsLine) :
    st.pos < byteLength source ∧ st.step source = some
      (((st.mark source).pushed text).takeStep
        (Step.read st.live (st.live.left.chars ++ inner))) := by
  have hmore : st.pos < byteLength source := by
    have hleft : 0 < byteLength st.live.left.chars := byteLength_pos st.live.left.usable.1
    rw [h.source_eq, h.pos]
    simp only [byteLength_append]
    omega
  have hsource : source = (passed ++ text) ++ (st.live.left.chars ++ inner) := by
    rw [h.source_eq, List.append_assoc]
  have hpeek : peek? source st.pos ≠ some 10 := by
    obtain ⟨c, cs, hchars, hblank⟩ := st.live.left.exists_cons
    rw [hsource, h.pos, peek?_behind, hchars]
    intro hten
    have hnewline := ((getElem?_encode_eq_ascii_iff (a := '\n') rfl c.utf8Size_pos).1 hten).2
    rw [hnewline] at hblank
    exact absurd hblank (by decide)
  have hstarts : startsWith? source st.pos st.live.left.chars = some true := by
    rw [hsource, h.pos, startsWith?_append, Option.some.injEq, List.isPrefixOf_iff_prefix]
    exact List.prefix_append _ _
  have htag : ((st.mark source).pushed text).readTag source = some
      (((st.mark source).pushed text).takeStep
        (Step.read st.live (st.live.left.chars ++ inner))) := by
    have hpos : ((st.mark source).pushed text).pos = byteLength (passed ++ text) :=
      (State.mark_pos source st).trans h.pos
    have hlive : ((st.mark source).pushed text).live = st.live := State.mark_live source st
    have hread : ((st.mark source).pushed text).readTag ((passed ++ text) ++
        (((st.mark source).pushed text).live.left.chars ++ inner)) = _ :=
      readTag_append hpos
    rw [hlive, ← hsource] at hread
    rw [hread, Step.read_left_append]
  refine ⟨hmore, ?_⟩
  rw [State.step, State.mark_pos, State.mark_live, if_neg hpeek, hstarts, h.pushText_eq]
  exact htag

/-- Behind a tag nothing is pending. -/
theorem behind_tag {inner after : List Char} {l : Lexeme} {live : Delimiters}
    (h : Pending source st passed text (st.live.left.chars ++ inner) beginsLine)
    (hread : Step.read st.live (st.live.left.chars ++ inner) = .lexeme l live after) :
    Pending source (((st.mark source).pushed text).take l live) ((passed ++ text) ++ l.chars) []
      after (l.chars.getLast? == some '\n') := by
  obtain ⟨happend, hne⟩ := Step.append_of_read_eq_lexeme hread
  have hpos : ((st.mark source).pushed text).pos = byteLength (passed ++ text) :=
    (State.mark_pos source st).trans h.pos
  have hline : ((st.mark source).pushed text).line ≤ byteLength (passed ++ text) := by
    have hle := h.line_le
    rw [h.start] at hle
    simp only [State.pushed, byteLength_append]
    omega
  refine behind l hne ?_ ?_ rfl hline
  · rw [h.source_eq, happend]
    simp
  · rw [State.take, hpos, byteLength_append (passed ++ text)]

/-- A tag becomes a token behind the pending text. -/
theorem finish_tag {inner after : List Char} {l : Lexeme} {live : Delimiters}
    (h : Pending source st passed text (st.live.left.chars ++ inner) beginsLine)
    (hread : Step.read st.live (st.live.left.chars ++ inner) = .lexeme l live after) :
    st.finish beginsLine (Scan.read st.live (text ++ (st.live.left.chars ++ inner))) =
      (((st.mark source).pushed text).take l live).finish (l.chars.getLast? == some '\n')
        (Scan.read live after) := by
  have hstart := h.pushed_start
  have hnext : (((st.mark source).pushed text).take l live).start =
      ((st.mark source).pushed text).start + byteLength l.chars := by
    rw [hstart, ← State.mark_pos source st]
    rfl
  have htokens : (((st.mark source).pushed text).take l live).tokens =
      ((st.mark source).pushed text).tokens ++ [⟨Token.kindOfLexeme
        ((st.mark source).pushed text).start l, ⟨((st.mark source).pushed text).start,
          l.chars⟩, st.pos == (st.mark source).line⟩] := by
    rw [hstart, ← State.mark_pos source st]
    rfl
  rw [h.finish_pushed, Scan.read_of_lexeme hread, State.finish_cons _ hnext htokens]

/-- At a flaw, reading ends. -/
theorem run_of_ended {inner : List Char} {ending : Ending}
    (h : Pending source st passed text (st.live.left.chars ++ inner) beginsLine)
    (hread : Step.read st.live (st.live.left.chars ++ inner) = .ended ending) :
    run source st =
      some (st.finish beginsLine (Scan.read st.live (text ++ (st.live.left.chars ++ inner)))) := by
  obtain ⟨hmore, hstep⟩ := h.step_tag
  rw [hread] at hstep
  rw [h.finish_pushed, Scan.read_of_ended hread]
  cases ending with
  | finished live =>
    rw [Step.read_left_append] at hread
    exact absurd hread (Step.readTag_ne_finished _ _ _ _)
  | unclosed | badMarkers =>
    rw [run_of_error hmore hstep, State.finish, h.pushed_start, ← State.mark_pos source st]
    rfl

/-- A source is read as by characters. -/
theorem run_eq (h : Pending source st passed text rest beginsLine) :
    run source st = some (st.finish beginsLine (Scan.read st.live (text ++ rest))) := by
  -- a round may take many characters, so the induction is on what is left of the source
  induction hlength : rest.length using Nat.strongRecOn
    generalizing st passed text rest beginsLine with
  | ind n ih =>
    cases rest with
    | nil =>
      rw [List.append_nil]
      exact h.run_end
    | cons c cs =>
      by_cases hleft : st.live.left.chars <+: c :: cs
      · -- a tag
        obtain ⟨inner, hinner⟩ := hleft
        rw [← hinner] at h hlength ⊢
        cases hread : Step.read st.live (st.live.left.chars ++ inner) with
        | ended ending => exact h.run_of_ended hread
        | lexeme l live after =>
          obtain ⟨hmore, hstep⟩ := h.step_tag
          rw [hread] at hstep
          have hlt := Step.length_lt_of_read_eq_lexeme hread
          rw [run_of_ok hmore hstep, ih _ (hlength ▸ hlt) (h.behind_tag hread) rfl,
            h.finish_tag hread]
          rfl
      · by_cases hnewline : c = '\n'
        · -- the end of a line
          subst hnewline
          obtain ⟨hmore, hstep⟩ := h.step_newline
          obtain ⟨hbehind, hfinish⟩ := h.behind_newline
          have hlive : ((st.mark source).endLine text).live = st.live := State.mark_live source st
          rw [run_of_ok hmore hstep, hfinish, ih cs.length (by simp [← hlength]) hbehind rfl, hlive]
          rfl
        · -- a character of text
          have hskip := h.skip hnewline hleft
          have hpassed := run_skip h.pos hnewline hleft
          rw [List.append_assoc, ← h.source_eq] at hpassed
          rw [hpassed, ih cs.length (by simp [← hlength]) hskip rfl]
          simp [State.finish]

end Pending

/-- Every cut is defined, and the tokens and flaws are those that are read by characters. -/
theorem tokenize_eq (pair : Delimiters) (source : List Char) :
    tokenize pair source = some (Token.ofSource pair source) := by
  have hmark : (State.initial pair).mark source = .initial pair := by
    unfold State.mark
    split <;> rfl
  have hpending : Pending source (.initial pair) [] [] source true := by
    refine ⟨rfl, rfl, rfl, by simp, ?_, ?_, ?_⟩
    · intro t₁ t₂ hsplit hne
      simp_all
    · rw [hmark]
      exact le_rfl
    · rw [hmark]
      rfl
  rw [tokenize, hpending.run_eq]
  simp [State.finish, State.initial, Token.ofSource, Token.ofScan]

end Scanner

end Mustache
