import Mustache.Proofs.Scanning

/-!
# Progress of the scanner

The offset and the live pair steer the scanner.  Here the pair consists of any two texts, so
that nothing but the scanner's own checks keeps it usable: an empty left marker would
stand everywhere, and a round could end where it began.  A round is defined as in the full
scanner; the loop is cut off after a number of rounds, which is shown to be no loss.

Main results:

- Theorem `Scanner.Cursor.Sound.round`: one round fails, or leads on and keeps the pair usable.
- Theorem `Scanner.Rounds.sound`: what holds in every round of a run.
- Theorem `Scanner.loop_eq`: the loop comes to an end, with the pair that is live there.
- Theorem `Scanner.progress_under_live_pairs`: progress and termination for every text, under
  every pair that is left live by other texts.
-/

namespace Mustache

open Text

/-! ## Pairs that are not checked -/

/-- Two texts for the sides of a tag, usable or not. -/
structure Markers where
  left : List Char
  right : List Char
deriving DecidableEq

namespace Markers

/-- Both texts are usable: not empty, without blanks and without an equals sign. -/
def Valid (pair : Markers) : Prop :=
  IsMarker pair.left ∧ IsMarker pair.right

instance (pair : Markers) : Decidable pair.Valid :=
  inferInstanceAs (Decidable (_ ∧ _))

/-- The pair that the body of a set delimiter tag names, after a check of its two words. -/
def ofBody? (body : List Char) : Option Markers :=
  match words body with
  | [left, right] => if IsMarker left ∧ IsMarker right then some ⟨left, right⟩ else none
  | _ => none

end Markers

namespace Delimiters

/-- The two texts of a pair. -/
def markers (pair : Delimiters) : Markers where
  left := pair.left.chars
  right := pair.right.chars

@[simp]
theorem markers_left (pair : Delimiters) : pair.markers.left = pair.left.chars := rfl

@[simp]
theorem markers_right (pair : Delimiters) : pair.markers.right = pair.right.chars := rfl

theorem markers_valid (pair : Delimiters) : pair.markers.Valid :=
  ⟨pair.left.usable, pair.right.usable⟩

end Delimiters

namespace Markers

/-- The texts of a valid pair are those of a pair of markers. -/
theorem Valid.exists_eq {pair : Markers} (h : pair.Valid) :
    ∃ delimiters : Delimiters, delimiters.markers = pair :=
  ⟨⟨⟨pair.left, h.1⟩, ⟨pair.right, h.2⟩⟩, rfl⟩

/-- The check lets exactly the bodies through that name a pair of markers. -/
theorem ofBody?_eq (body : List Char) :
    ofBody? body = (Delimiters.ofBody? body).map Delimiters.markers := by
  rw [ofBody?, Delimiters.ofBody?]
  match words body with
  | [left, right] =>
    dsimp only
    rw [Delimiters.ofMarkers?]
    split <;> rfl
  | [] | [_] | _ :: _ :: _ :: _ => rfl

end Markers

/-- The text that ends a tag of this kind, in front of a right marker. -/
def Sigil.closing (sigil : Sigil) (right : List Char) : List Char :=
  match sigil with
  | brace => '}' :: right
  | equals => '=' :: right
  | _ => right

theorem Sigil.closing_eq (sigil : Sigil) (pair : Delimiters) :
    sigil.closing pair.right.chars = sigil.terminator pair := by
  cases sigil <;> rfl

namespace Scanner

/-! ## Rounds -/

/-- What steers the scanner. -/
structure Cursor where
  pos : Nat
  live : Markers

namespace Cursor

section

variable (source : List Char) (c : Cursor)

/-- Goes behind a tag of this kind, whose body begins at an offset. -/
def skipBody (sigil : Sigil) (inner : Nat) : Option (Except Flaw Cursor) :=
  let closing := sigil.closing c.live.right
  match readUntil? source inner closing with
  | none => none
  | some none =>
    some (.error ⟨.unclosedTag (String.ofList closing),
      ⟨c.pos, c.pos + byteLength c.live.left⟩⟩)
  | some (some (body, k)) =>
    let stop := seek source k (byteLength closing)
    match cut? inner k source with
    | none => none
    | some _ =>
      match if sigil = .equals then Markers.ofBody? body else some c.live with
      | none => some (.error ⟨.badMarkers, ⟨c.pos, stop⟩⟩)
      | some live => some (.ok ⟨stop, live⟩)

/-- Goes behind the tag that begins here. -/
def skipTag : Option (Except Flaw Cursor) :=
  let opened := seek source c.pos (byteLength c.live.left)
  let sigil := Sigil.ofByte (peek? source opened)
  c.skipBody source sigil (if sigil = .plain then opened else seek source opened 1)

/-- One round of the loop: goes on by a byte, or behind a tag. -/
def round : Option (Except Flaw Cursor) :=
  if peek? source c.pos = some 10 then
    some (.ok { c with pos := seek source c.pos 1 })
  else
    match startsWith? source c.pos c.live.left with
    | none => none
    | some true => c.skipTag source
    | some false => some (.ok { c with pos := seek source c.pos 1 })

end

end Cursor

/-- Goes round as long as the source is not at its end; nothing comes of it where a round is not
defined, or where the number of rounds is used up. -/
def loop (source : List Char) : Nat → Cursor → Option (Except Flaw Cursor)
  | 0, _ => none
  | n + 1, c =>
    if c.pos < byteLength source then
      match c.round source with
      | none => none
      | some (.error flaw) => some (.error flaw)
      | some (.ok next) => loop source n next
    else
      some (.ok c)

/-- So many rounds lead from one place to another. -/
inductive Rounds (source : List Char) (first : Cursor) : Nat → Cursor → Prop
  | start : Rounds source first 0 first
  | round {n : Nat} {c next : Cursor} (before : Rounds source first n c)
      (more : c.pos < byteLength source) (h : c.round source = some (.ok next)) :
      Rounds source first (n + 1) next

/-! ## What steers the scanner -/

namespace State

variable {source : List Char} {st : State}

/-- The scanner without what it has found. -/
def cursor (st : State) : Cursor where
  pos := st.pos
  live := st.live.markers

@[simp]
theorem cursor_pos : st.cursor.pos = st.pos := rfl

@[simp]
theorem cursor_live : st.cursor.live = st.live.markers := rfl

/-- What is found does not steer the way behind a tag. -/
theorem skipTag_of_readTag {r : Except Flaw State} (h : st.readTag source = some r) :
    st.cursor.skipTag source = some (r.map cursor) := by
  unfold readTag at h
  rw [Cursor.skipTag, cursor_pos, cursor_live, Delimiters.markers_left]
  dsimp only at h ⊢
  generalize Sigil.ofByte (peek? source (seek source st.pos (byteLength st.live.left.chars))) =
    sigil at h ⊢
  generalize (if sigil = .plain then seek source st.pos (byteLength st.live.left.chars)
    else seek source (seek source st.pos (byteLength st.live.left.chars)) 1) = inner at h ⊢
  rw [Cursor.skipBody, cursor_pos, cursor_live, Delimiters.markers_left, Delimiters.markers_right,
    Sigil.closing_eq]
  dsimp only
  -- both go by what is found and cut off, and here it does not matter what this is
  generalize readUntil? source inner (sigil.terminator st.live) = found at h ⊢
  match found with
  | none => cases h
  | some none =>
    cases h
    rfl
  | some (some (body, k)) =>
    dsimp only at h ⊢
    generalize cut? inner k source = piece at h ⊢
    cases piece with
    | none => cases h
    | some text =>
      have hnamed : (if sigil = .equals then Markers.ofBody? body else some st.live.markers) =
          (if sigil = .equals then Delimiters.ofBody? body else some st.live).map
            Delimiters.markers := by
        rw [Markers.ofBody?_eq]
        split <;> rfl
      dsimp only at h ⊢
      rw [hnamed]
      generalize (if sigil = .equals then Delimiters.ofBody? body else some st.live) = named at h ⊢
      cases named with
      | none =>
        cases h
        rfl
      | some live =>
        obtain ⟨next, hnext, rfl⟩ := Option.map_eq_some_iff.1 h
        obtain ⟨whole, -, rfl⟩ := Option.map_eq_some_iff.1 hnext
        rfl

/-- What is found does not steer the scanner. -/
theorem round_of_step {r : Except Flaw State} (h : st.step source = some r) :
    st.cursor.round source = some (r.map cursor) := by
  have hcursor : (st.mark source).cursor = st.cursor := by
    rw [cursor, mark_pos, mark_live, cursor]
  unfold step at h
  dsimp only at h
  rw [mark_pos, mark_live] at h
  rw [Cursor.round, cursor_pos, cursor_live, Delimiters.markers_left]
  by_cases hnewline : peek? source st.pos = some 10
  · rw [if_pos hnewline] at h ⊢
    obtain ⟨pushed, hpushed, rfl⟩ := Option.map_eq_some_iff.1 h
    rw [← (eq_of_pushText hpushed).2.1.trans (mark_live source st)]
    rfl
  · rw [if_neg hnewline] at h ⊢
    generalize startsWith? source st.pos st.live.left.chars = starts at h ⊢
    match starts with
    | none => cases h
    | some true =>
      obtain ⟨pushed, hpushed, htag⟩ := Option.bind_eq_some_iff.1 h
      obtain ⟨hpos, hlive, -⟩ := eq_of_pushText hpushed
      have hsame : pushed.cursor = st.cursor := by
        rw [← hcursor, cursor, hpos, hlive, cursor]
      rw [← hsame]
      exact skipTag_of_readTag htag
    | some false =>
      cases h
      rw [← mark_live source st]
      rfl

end State

/-! ## Where the scanner stands -/

/-- The offset is a boundary, or it is inside a character at which the text does not begin. -/
def Aligned (source lit : List Char) (pos : Nat) : Prop :=
  IsBoundary source pos ∨
    ∃ passed c rest, source = passed ++ c :: rest ∧ byteLength passed < pos ∧
      pos < byteLength passed + c.utf8Size ∧ ¬ lit <+: c :: rest

section

variable {passed rest lit source : List Char} {c : Char}

/-- In front of the end of the source, some character is not passed yet, and the text does not
begin there if a byte of it is. -/
theorem Aligned.exists_char {pos : Nat} (h : Aligned source lit pos)
    (hpos : pos < byteLength source) :
    ∃ passed c rest n, source = passed ++ c :: rest ∧ pos = byteLength passed + n ∧
      n < c.utf8Size ∧ (0 < n → ¬ lit <+: c :: rest) := by
  rcases h with hboundary | ⟨passed, c, rest, rfl, hbefore, hbehind, hno⟩
  · obtain ⟨passed, behind, rfl, rfl⟩ := hboundary.exists_append
    cases behind with
    | nil => simp at hpos
    | cons c rest => exact ⟨passed, c, rest, 0, rfl, rfl, c.utf8Size_pos, by simp⟩
  · refine ⟨passed, c, rest, pos - byteLength passed, rfl, ?_, ?_, fun _ => hno⟩
    · omega
    · omega

/-- A byte on in a character at which the text does not begin. -/
theorem aligned_succ {n : Nat} (hn : n < c.utf8Size) (hno : ¬ lit <+: c :: rest) :
    Aligned (passed ++ c :: rest) lit (byteLength passed + n + 1) := by
  by_cases hend : n + 1 = c.utf8Size
  · left
    have hboundary := isBoundary_append (passed ++ [c]) rest
    rw [List.append_assoc, List.singleton_append] at hboundary
    simpa [Nat.add_assoc, hend] using hboundary
  · exact .inr ⟨passed, c, rest, rfl, by omega, by omega, hno⟩

end

namespace Cursor

section

variable {passed rest : List Char} {cur : Cursor} {c : Char}

/-- Where no tag begins, the scanner goes on by a byte. -/
theorem round_of_no_tag {n : Nat} (hpos : cur.pos = byteLength passed + n) (hn : n < c.utf8Size)
    (hne : cur.live.left ≠ []) (hno : ¬ cur.live.left <+: c :: rest) :
    cur.round (passed ++ c :: rest) = some (.ok { cur with pos := cur.pos + 1 }) := by
  have hseek : seek (passed ++ c :: rest) cur.pos 1 = cur.pos + 1 := by
    rw [seek, Nat.min_eq_left]
    simp only [byteLength_append, byteLength_cons]
    omega
  have hstarts : startsWith? (passed ++ c :: rest) cur.pos cur.live.left = some false := by
    rw [hpos]
    by_cases hzero : n = 0
    · rw [hzero, Nat.add_zero, startsWith?_append, Option.some.injEq, Bool.eq_false_iff, ne_eq,
        List.isPrefixOf_iff_prefix]
      exact hno
    · exact startsWith?_inside (Nat.pos_of_ne_zero hzero) hn hne
  rw [round, hseek, hstarts]
  split <;> rfl

/-- Where a tag begins, the scanner comes behind it, or to a flaw. -/
theorem round_of_tag {pair : Delimiters} {inner : List Char} (hlive : cur.live = pair.markers)
    (hpos : cur.pos = byteLength passed) :
    (∃ flaw, cur.round (passed ++ (pair.left.chars ++ inner)) = some (.error flaw)) ∨
      ∃ l live after, pair.left.chars ++ inner = Lexeme.chars l ++ after ∧ l.chars ≠ [] ∧
        cur.round (passed ++ (pair.left.chars ++ inner)) =
          some (.ok ⟨byteLength (passed ++ l.chars), Delimiters.markers live⟩) := by
  have hround : cur.round (passed ++ (pair.left.chars ++ inner)) =
      cur.skipTag (passed ++ (pair.left.chars ++ inner)) := by
    have hpeek : peek? (passed ++ (pair.left.chars ++ inner)) cur.pos ≠ some 10 := by
      obtain ⟨c, cs, hchars, hblank⟩ := pair.left.exists_cons
      rw [hpos, peek?_behind, hchars]
      intro hten
      have hnewline := ((getElem?_encode_eq_ascii_iff (a := '\n') rfl c.utf8Size_pos).1 hten).2
      rw [hnewline] at hblank
      exact absurd hblank (by decide)
    have hstarts : startsWith? (passed ++ (pair.left.chars ++ inner)) cur.pos cur.live.left =
        some true := by
      rw [hpos, startsWith?_append, hlive, Option.some.injEq, List.isPrefixOf_iff_prefix]
      exact List.prefix_append _ _
    rw [round, if_neg hpeek, hstarts]
  let st : State := ⟨cur.pos, pair, 0, 0, []⟩
  have hcursor : st.cursor = cur := by
    rw [State.cursor, ← hlive]
  have htag := State.skipTag_of_readTag (@readTag_append st passed inner hpos)
  rw [hcursor, ← hround, ← Step.read_left_append] at htag
  cases hread : Step.read pair (pair.left.chars ++ inner) with
  | ended ending =>
    left
    rw [hread] at htag
    cases ending with
    | finished live =>
      rw [Step.read_left_append] at hread
      exact absurd hread (Step.readTag_ne_finished _ _ _ _)
    | unclosed | badMarkers => exact ⟨_, htag⟩
  | lexeme l live after =>
    right
    rw [hread] at htag
    obtain ⟨happend, hne⟩ := Step.append_of_read_eq_lexeme hread
    refine ⟨l, live, after, happend, hne, ?_⟩
    rw [byteLength_append, ← hpos]
    exact htag

end

end Cursor

/-! ## Invariants -/

/-- The scanner stands where it may stand in a source, with a pair that can be used. -/
structure Cursor.Sound (source : List Char) (cur : Cursor) : Prop where
  valid : cur.live.Valid
  aligned : Aligned source cur.live.left cur.pos

namespace Cursor.Sound

variable {source : List Char} {cur : Cursor}

theorem start (source : List Char) {pair : Markers} (h : pair.Valid) :
    Sound source ⟨0, pair⟩ :=
  ⟨h, .inl (isBoundary_append [] source)⟩

theorem pos_le (h : cur.Sound source) : cur.pos ≤ byteLength source := by
  rcases h.aligned with hboundary | ⟨passed, c, rest, rfl, -, hbehind, -⟩
  · exact hboundary.le_byteLength
  · simp only [byteLength_append, byteLength_cons]
    omega

/-- One round fails, or leads on and keeps the scanner where it may stand. -/
theorem round (h : cur.Sound source) (hmore : cur.pos < byteLength source) :
    (∃ flaw, cur.round source = some (.error flaw)) ∨
      ∃ next, cur.round source = some (.ok next) ∧ cur.pos < next.pos ∧ next.Sound source := by
  obtain ⟨pair, hlive⟩ := h.valid.exists_eq
  obtain ⟨passed, c, rest, n, rfl, hpos, hn, hinside⟩ := h.aligned.exists_char hmore
  by_cases hleft : cur.live.left <+: c :: rest
  · -- a tag begins, so the scanner does not stand inside the character
    have hzero : n = 0 := by
      by_contra hne
      exact hinside (Nat.pos_of_ne_zero hne) hleft
    rw [hzero, Nat.add_zero] at hpos
    obtain ⟨inner, hinner⟩ := hleft
    rw [← hlive, Delimiters.markers_left] at hinner
    rw [← hinner]
    obtain hflaw | ⟨l, live, after, happend, hne, hnext⟩ := round_of_tag hlive.symm hpos
    · exact .inl hflaw
    · refine .inr ⟨_, hnext, ?_, live.markers_valid, .inl ?_⟩
      · have hlength := byteLength_pos hne
        simp only [byteLength_append]
        omega
      · rw [happend, ← List.append_assoc]
        exact isBoundary_append _ _
  · have hnext := round_of_no_tag hpos hn h.valid.1.1 hleft
    refine .inr ⟨_, hnext, Nat.lt_succ_self _, h.valid, ?_⟩
    dsimp only
    rw [hpos]
    exact aligned_succ hn hleft

end Cursor.Sound

/-- Round after round, the scanner stands where it may stand, and no round stays where it was. -/
theorem Rounds.sound {source : List Char} {pair : Markers} {n : Nat} {cur : Cursor}
    (h : Rounds source ⟨0, pair⟩ n cur) (hvalid : pair.Valid) : cur.Sound source ∧ n ≤ cur.pos := by
  induction h with
  | start => exact ⟨.start source hvalid, le_rfl⟩
  | round before more hround ih =>
    obtain ⟨hsound, hn⟩ := ih
    rcases hsound.round more with ⟨flaw, hflaw⟩ | ⟨next, hnext, hlt, hsound'⟩
    · simp [hflaw] at hround
    · obtain rfl : next = _ := by simpa [hnext] using hround
      exact ⟨hsound', by omega⟩

/-! ## The loop -/

section

variable {source : List Char} {st : State}

/-- Where the full scanner finds something, the loop comes to an end with the same pair, or with the
same flaw. -/
theorem loop_of_run {r : Except Flaw Token.Stream} {n : Nat} (h : run source st = some r)
    (hpos : st.pos ≤ byteLength source) (hn : byteLength source < st.pos + n) :
    loop source n st.cursor =
      some (r.map fun stream => ⟨byteLength source, stream.live.markers⟩) := by
  induction n generalizing st with
  | zero => omega
  | succ n ih =>
    rw [loop, State.cursor_pos]
    by_cases hmore : st.pos < byteLength source
    · rw [if_pos hmore]
      cases hstep : st.step source with
      | none =>
        rw [run, dif_pos hmore] at h
        split at h <;> simp_all
      | some result =>
        rw [State.round_of_step hstep]
        cases result with
        | error flaw =>
          rw [run_of_error hmore hstep] at h
          cases h
          rfl
        | ok next =>
          obtain ⟨hlt, hle⟩ := State.pos_of_step hstep hmore
          rw [run_of_ok hmore hstep] at h
          exact ih h hle (by omega)
    · rw [if_neg hmore]
      have hend : st.pos = byteLength source := by omega
      rw [run_at_end hend] at h
      obtain ⟨last, hlast, rfl⟩ := Option.map_eq_some_iff.1 h
      rw [State.cursor, hend, ← (State.eq_of_pushText hlast).2.1]
      rfl

/-- The loop comes to an end within as many rounds as there are bytes, and one to see the end: with
the pair that is live at the end of the source, or with the flaw at which reading ends. -/
theorem loop_eq (pair : Delimiters) (source : List Char) {n : Nat} (hn : byteLength source < n) :
    loop source n ⟨0, pair.markers⟩ = some ((Token.ofSource pair source).map fun stream =>
      ⟨byteLength source, stream.live.markers⟩) := by
  have hrun : run source (.initial pair) = some (Token.ofSource pair source) :=
    tokenize_eq pair source
  refine loop_of_run hrun (Nat.zero_le _) ?_
  rwa [State.initial, Nat.zero_add]

end

/-! ## One text after another -/

/-- The pairs that may be live when a text begins: the first one, and the one at the end of any text
that is read under such a pair, which the texts of its lambdas start from. -/
inductive LiveAfter (pair : Markers) : Markers → Prop
  | start : LiveAfter pair pair
  | text {live : Markers} {source : List Char} {n : Nat} {last : Cursor}
      (before : LiveAfter pair live) (h : loop source n ⟨0, live⟩ = some (.ok last)) :
      LiveAfter pair last.live

/-- The loop leaves a pair that can be used if it began with one. -/
theorem valid_of_loop {source : List Char} {n : Nat} {cur last : Cursor} (h : cur.Sound source)
    (hloop : loop source n cur = some (.ok last)) : last.live.Valid := by
  induction n generalizing cur with
  | zero => cases hloop
  | succ n ih =>
    rw [loop] at hloop
    split at hloop
    · rename_i hmore
      rcases h.round hmore with ⟨flaw, hflaw⟩ | ⟨next, hnext, -, hsound⟩
      · simp [hflaw] at hloop
      · rw [hnext] at hloop
        exact ih hsound hloop
    · cases hloop
      exact h.valid

theorem LiveAfter.valid {pair live : Markers} (h : LiveAfter pair live) (hvalid : pair.Valid) :
    live.Valid := by
  induction h with
  | start => exact hvalid
  | text _ hloop ih => exact valid_of_loop (.start _ ih) hloop

/-- Where reading starts from a valid pair, the pair that is live at the beginning of a text, also
of the text of a lambda, is valid.  In every round through the text the live pair is valid, and the
scanner stands on a boundary, or inside a character at which the left marker does not begin; the
round ends with a flaw, or further on.  So the rounds are not more than the bytes, and the loop
comes to the end that the tokens of the text have, with a valid pair. -/
theorem progress_under_live_pairs {pair live : Markers} (hvalid : pair.Valid)
    (hlive : LiveAfter pair live) (source : List Char) :
    live.Valid ∧
      (∀ n cur, Rounds source ⟨0, live⟩ n cur →
        (cur.live.Valid ∧ Aligned source cur.live.left cur.pos) ∧
          (n ≤ cur.pos ∧ cur.pos ≤ byteLength source) ∧
          (cur.pos < byteLength source →
            (∃ flaw, cur.round source = some (.error flaw)) ∨
              ∃ next, cur.round source = some (.ok next) ∧ cur.pos < next.pos)) ∧
      (∃ checked : Delimiters, checked.markers = live ∧ ∀ n, byteLength source < n →
        loop source n ⟨0, live⟩ = some ((Token.ofSource checked source).map fun stream =>
          ⟨byteLength source, stream.live.markers⟩)) ∧
      ∀ n last, loop source n ⟨0, live⟩ = some (.ok last) → last.live.Valid := by
  have hstart := hlive.valid hvalid
  refine ⟨hstart, ?_, ?_, fun n last hloop => valid_of_loop (.start source hstart) hloop⟩
  · intro n cur hrounds
    obtain ⟨hsound, hn⟩ := hrounds.sound hstart
    refine ⟨⟨hsound.valid, hsound.aligned⟩, ⟨hn, hsound.pos_le⟩, ?_⟩
    intro hmore
    rcases hsound.round hmore with hflaw | ⟨next, hnext, hlt, -⟩
    · exact .inl hflaw
    · exact .inr ⟨next, hnext, hlt⟩
  · obtain ⟨checked, hchecked⟩ := hstart.exists_eq
    refine ⟨checked, hchecked, fun n hn => ?_⟩
    rw [← hchecked]
    exact loop_eq checked source hn

/-- Under a pair that another text has set, with a right marker of two bytes. -/
theorem progress_under_set_pair :
    (Markers.mk ['{', '{'] ['}', '}']).Valid ∧
      LiveAfter ⟨['{', '{'], ['}', '}']⟩ ⟨['<'], ['é']⟩ ∧
      (Markers.mk ['<'] ['é']).Valid ∧
      ∃ checked : Delimiters, checked.markers = ⟨['<'], ['é']⟩ ∧ ∀ n, 8 < n →
        loop "éx<&bé".toList n ⟨0, ['<'], ['é']⟩ =
          some ((Token.ofSource checked "éx<&bé".toList).map fun stream =>
            ⟨8, stream.live.markers⟩) := by
  have hloop : loop "{{=< é=}}".toList 11 ⟨0, ['{', '{'], ['}', '}']⟩ =
      some (.ok ⟨10, ['<'], ['é']⟩) := rfl
  have hset : LiveAfter ⟨['{', '{'], ['}', '}']⟩ ⟨['<'], ['é']⟩ := .text .start hloop
  obtain ⟨hvalid, -, hend, -⟩ :=
    progress_under_live_pairs (by decide) hset "éx<&bé".toList
  exact ⟨by decide, hset, hvalid, hend⟩

end Scanner

end Mustache
