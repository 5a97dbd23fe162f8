import Mustache.Proofs.Boundaries
import Mustache.Proofs.Reading
import Mustache.Proofs.Tiling

/-!
# Reading byte by byte

A source can also be read by a scanner that moves over its bytes.  It looks at each byte
for the end of a line and for the beginning of the live left marker, also inside
characters, and cuts tokens out of the source where it has found their ends.  A cut may
not be defined, and looking for a marker behind the end of the source is not either.

Main results:

- Theorem `Scanner.State.pos_of_step`: a round leads on, within the source.
- Theorem `Scanner.Reaches.pos_le`: the scanner stays within the source.
- Theorem `Scanner.readTag_append`: a tag is read as by characters.
-/

namespace Mustache

open Text

namespace Sigil

/-- The characters that announce a kind of tag. -/
def marks : List Char :=
  ['&', '{', '#', '^', '/', '>', '!', '=']

/-- The kind of a tag is told by the byte behind its left marker, if this is the byte of a mark. -/
def ofByte (b : Option UInt8) : Sigil :=
  ((marks.find? fun c => b = some c.val.toUInt8).bind ofChar?).getD plain

/-- The first byte of a text tells the kind of tag that the text tells. -/
theorem ofByte_head (inner : List Char) : ofByte ((encode inner)[0]?) = (read inner).1 := by
  cases inner with
  | nil => rfl
  | cons c cs =>
    have hsizes : ∀ a ∈ marks, a.utf8Size = 1 := by simp [marks, Char.utf8Size]
    have hbyte : ∀ a ∈ marks, ((encode (c :: cs))[0]? = some a.val.toUInt8 ↔ c = a) := by
      intro a ha
      simpa using getElem?_encode_eq_ascii_iff (hsizes a ha) c.utf8Size_pos
    have hnone := ofChar?_eq_none_iff c
    rw [ofByte, read]
    cases hfound : marks.find? fun a => (encode (c :: cs))[0]? = some a.val.toUInt8 with
    | none =>
      have hc : c ∉ marks := by
        intro hmem
        have hno := List.find?_eq_none.1 hfound c hmem
        exact hno (decide_eq_true ((hbyte c hmem).2 rfl))
      rw [hnone.2 hc]
      rfl
    | some a =>
      have hmem := List.mem_of_find?_eq_some hfound
      have hsome := List.find?_some hfound
      obtain rfl := (hbyte a hmem).1 (of_decide_eq_true hsome)
      cases hkind : ofChar? c with
      | none => exact absurd hmem (hnone.1 hkind)
      | some sigil => simp [hkind]

end Sigil

namespace Scanner

/-! ## Looking and moving -/

section

variable (source : List Char)

/-- The byte at an offset. -/
def peek? (pos : Nat) : Option UInt8 :=
  (encode source)[pos]?

/-- The byte in front of an offset. -/
def peekBack? (pos : Nat) : Option UInt8 :=
  if pos = 0 then none else peek? source (pos - 1)

/-- The offset some bytes later, or the end of the source. -/
def seek (pos n : Nat) : Nat :=
  min (pos + n) (byteLength source)

/-- Whether a text stands at an offset; behind the end of the source this is not defined. -/
def startsWith? (pos : Nat) (lit : List Char) : Option Bool :=
  if pos ≤ byteLength source then some ((encode lit).isPrefixOf ((encode source).drop pos))
  else none

/-- The text from an offset up to the next place where another text stands, and this place.  Off a
boundary nothing is found. -/
def readUntil? (pos : Nat) (lit : List Char) : Option (Option (List Char × Nat)) :=
  if IsBoundary source pos then
    match breakOn lit (dropBytes pos source) with
    | none => some none
    | some (before, _) =>
      (cut? pos (pos + byteLength before) source).map fun text =>
        some (text, pos + byteLength before)
  else
    some none

end

/-! ## The scanner -/

/-- What a scanner has found so far. -/
structure State where
  pos : Nat
  live : Delimiters
  /-- Where the text begins that no token covers yet. -/
  start : Nat
  /-- Where the line begins. -/
  line : Nat
  tokens : List Token

namespace State

section

variable (source : List Char) (st : State)

/-- Takes notice of the beginning of a line. -/
def mark : State :=
  if st.pos = 0 ∨ peekBack? source st.pos = some 10 then { st with line := st.pos } else st

/-- Cuts off the text up to an offset. -/
def pushText (stop : Nat) : Option State :=
  if st.start < stop then
    (cut? st.start stop source).map fun text =>
      { st with
        start := stop
        tokens := st.tokens ++ [⟨.text, ⟨st.start, text⟩, st.start == st.line⟩] }
  else
    some { st with start := stop }

/-- Cuts off a tag, behind which a pair is live. -/
def pushTag (kind : TokenKind) (stop : Nat) (live : Delimiters) : Option State :=
  (cut? st.pos stop source).map fun whole =>
    { pos := stop
      live := live
      start := stop
      line := st.line
      tokens := st.tokens ++ [⟨kind, ⟨st.pos, whole⟩, st.pos == st.line⟩] }

/-- Reads the tag that begins here. -/
def readTag : Option (Except Flaw State) :=
  let opened := seek source st.pos (byteLength st.live.left.chars)
  let sigil := Sigil.ofByte (peek? source opened)
  let inner := if sigil = .plain then opened else seek source opened 1
  let terminator := sigil.terminator st.live
  match readUntil? source inner terminator with
  | none => none
  | some none =>
    some (.error ⟨.unclosedTag (String.ofList terminator),
      ⟨st.pos, st.pos + byteLength st.live.left.chars⟩⟩)
  | some (some (body, k)) =>
    let stop := seek source k (byteLength terminator)
    match cut? inner k source with
    | none => none
    | some text =>
      match if sigil = .equals then Delimiters.ofBody? body else some st.live with
      | none => some (.error ⟨.badMarkers, ⟨st.pos, stop⟩⟩)
      | some live =>
        (st.pushTag source (Token.kindOfTag sigil (Fragment.trimmed ⟨inner, text⟩)) stop live).map
          .ok

/-- One round: looks at the byte at the offset, and goes on behind it or behind a tag. -/
def step : Option (Except Flaw State) :=
  let st := st.mark source
  if peek? source st.pos = some 10 then
    (st.pushText source (st.pos + 1)).map fun next =>
      .ok { next with pos := seek source st.pos 1 }
  else
    match startsWith? source st.pos st.live.left.chars with
    | none => none
    | some true => (st.pushText source st.pos).bind fun next => next.readTag source
    | some false => some (.ok { st with pos := seek source st.pos 1 })

end

end State

/-! ## Progress -/

section

variable {source : List Char} {st next : State}

section

variable (source : List Char) (st : State)

@[simp]
theorem State.mark_pos : (st.mark source).pos = st.pos := by
  unfold mark
  split <;> rfl

@[simp]
theorem State.mark_live : (st.mark source).live = st.live := by
  unfold mark
  split <;> rfl

@[simp]
theorem State.mark_start : (st.mark source).start = st.start := by
  unfold mark
  split <;> rfl

@[simp]
theorem State.mark_tokens : (st.mark source).tokens = st.tokens := by
  unfold mark
  split <;> rfl

end

theorem le_seek {pos : Nat} (h : pos ≤ byteLength source) (n : Nat) : pos ≤ seek source pos n := by
  simp only [seek, Nat.le_min]
  omega

theorem seek_le (pos n : Nat) : seek source pos n ≤ byteLength source :=
  Nat.min_le_right _ _

theorem lt_seek {pos n : Nat} (h : pos < byteLength source) (hn : 0 < n) :
    pos < seek source pos n := by
  simp only [seek, Nat.lt_min]
  omega

/-- What is found lies ahead, within the source. -/
theorem le_of_readUntil? {pos k : Nat} {lit body : List Char}
    (h : readUntil? source pos lit = some (some (body, k))) : pos ≤ k ∧ k ≤ byteLength source := by
  unfold readUntil? at h
  split at h
  · split at h
    · cases h
    · obtain ⟨text, hcut, heq⟩ := Option.map_eq_some_iff.1 h
      cases heq
      obtain ⟨before, after, rfl, rfl, hstop⟩ := cut?_eq_some_iff.1 hcut
      simp only [byteLength_append] at hstop ⊢
      omega
  · cases h

/-- Reading a tag leads on, within the source. -/
theorem State.pos_of_readTag (h : st.readTag source = some (.ok next))
    (hpos : st.pos < byteLength source) : st.pos < next.pos ∧ next.pos ≤ byteLength source := by
  unfold readTag at h
  dsimp only at h
  split at h
  · cases h
  · cases h
  · rename_i body k hfound
    split at h
    · cases h
    · split at h
      · cases h
      · obtain ⟨pushed, hpushed, heq⟩ := Option.map_eq_some_iff.1 h
        cases heq
        obtain ⟨whole, -, rfl⟩ := Option.map_eq_some_iff.1 hpushed
        obtain ⟨hle, hk⟩ := le_of_readUntil? hfound
        have hleft : 0 < byteLength st.live.left.chars := byteLength_pos st.live.left.usable.1
        have hopened := lt_seek hpos hleft
        refine ⟨?_, seek_le _ _⟩
        refine lt_of_lt_of_le (lt_of_lt_of_le hopened ?_) (le_seek hk _)
        refine le_trans ?_ hle
        split
        · exact le_rfl
        · exact le_seek (seek_le _ _) 1

/-- Cutting off text moves nothing but the beginning of the text. -/
theorem State.eq_of_pushText {stop : Nat} (h : st.pushText source stop = some next) :
    next.pos = st.pos ∧ next.live = st.live ∧ next.line = st.line := by
  unfold pushText at h
  split at h
  · obtain ⟨text, -, rfl⟩ := Option.map_eq_some_iff.1 h
    exact ⟨rfl, rfl, rfl⟩
  · cases h
    exact ⟨rfl, rfl, rfl⟩

/-- A round leads on, within the source. -/
theorem State.pos_of_step (h : st.step source = some (.ok next))
    (hpos : st.pos < byteLength source) : st.pos < next.pos ∧ next.pos ≤ byteLength source := by
  have hforward : st.pos < seek source (st.mark source).pos 1 := by
    rw [mark_pos]
    exact lt_seek hpos Nat.one_pos
  unfold step at h
  dsimp only at h
  split at h
  · obtain ⟨pushed, -, heq⟩ := Option.map_eq_some_iff.1 h
    cases heq
    exact ⟨hforward, seek_le _ _⟩
  · split at h
    · cases h
    · obtain ⟨pushed, hpushed, htag⟩ := Option.bind_eq_some_iff.1 h
      have hsame := (eq_of_pushText hpushed).1.trans (mark_pos source st)
      rw [← hsame] at hpos ⊢
      exact pos_of_readTag htag hpos
    · cases h
      exact ⟨hforward, seek_le _ _⟩

end

/-- Reads a source to its end, round after round; at the end, the text that is left is cut off. -/
def run (source : List Char) (st : State) : Option (Except Flaw Token.Stream) :=
  if hpos : st.pos < byteLength source then
    match hstep : st.step source with
    | none => none
    | some (.error flaw) => some (.error flaw)
    | some (.ok next) =>
      have := State.pos_of_step hstep hpos
      run source next
  else
    (st.pushText source (byteLength source)).map fun last => .ok ⟨last.tokens, last.live⟩
termination_by byteLength source - st.pos

/-- The scanner at the beginning of a source. -/
def State.initial (pair : Delimiters) : State :=
  ⟨0, pair, 0, 0, []⟩

/-- Reads a source from its beginning. -/
def tokenize (pair : Delimiters) (source : List Char) : Option (Except Flaw Token.Stream) :=
  run source (.initial pair)

/-- The scanner on its way through a source. -/
inductive Reaches (pair : Delimiters) (source : List Char) : State → Prop
  | start : Reaches pair source (.initial pair)
  | step {st next : State} (before : Reaches pair source st) (more : st.pos < byteLength source)
      (hstep : st.step source = some (.ok next)) : Reaches pair source next

/-- The scanner stays within the source. -/
theorem Reaches.pos_le {pair : Delimiters} {source : List Char} {st : State}
    (h : Reaches pair source st) : st.pos ≤ byteLength source := by
  cases h with
  | start => exact Nat.zero_le _
  | step _ more hstep => exact (State.pos_of_step hstep more).2

/-! ## Between two characters -/

section

variable (passed rest : List Char)

theorem peek?_append (n : Nat) :
    peek? (passed ++ rest) (byteLength passed + n) = (encode rest)[n]? := by
  rw [peek?, encode_append, List.getElem?_append_right (by rw [length_encode]; omega),
    length_encode, Nat.add_sub_cancel_left]

/-- The byte behind a text is the first byte of what follows. -/
theorem peek?_behind :
    peek? (passed ++ rest) (byteLength passed) = (encode rest)[0]? := by
  rw [← Nat.add_zero (byteLength passed), peek?_append]

/-- A text is found where it stands, in whole characters. -/
theorem startsWith?_append (lit : List Char) :
    startsWith? (passed ++ rest) (byteLength passed) lit = some (lit.isPrefixOf rest) := by
  rw [startsWith?, if_pos (by simp), encode_append, ← length_encode, List.drop_left,
    isPrefixOf_encode]

theorem seek_append (xs ys : List Char) :
    seek (passed ++ (xs ++ ys)) (byteLength passed) (byteLength xs) =
      byteLength (passed ++ xs) := by
  simp [seek]

theorem cut?_append (piece after : List Char) :
    cut? (byteLength passed) (byteLength (passed ++ piece)) (passed ++ (piece ++ after)) =
      some piece :=
  cut?_eq_some_iff.2 ⟨passed, after, rfl, rfl, rfl⟩

/-- What is found up to the first place of a text can be cut off. -/
theorem readUntil?_append (lit : List Char) :
    readUntil? (passed ++ rest) (byteLength passed) lit =
      some ((breakOn lit rest).map fun found => (found.1, byteLength (passed ++ found.1))) := by
  rw [readUntil?, if_pos (isBoundary_append passed rest), dropBytes_append]
  cases hfound : breakOn lit rest with
  | none => rfl
  | some found =>
    obtain ⟨before, after⟩ := found
    dsimp only
    rw [breakOn_eq_some hfound, ← byteLength_append, cut?_append]
    rfl

end

/-! ## Tags -/

/-- The scanner behind a lexeme, which is a token now. -/
def State.take (st : State) (l : Lexeme) (live : Delimiters) : State where
  pos := st.pos + byteLength l.chars
  live := live
  start := st.pos + byteLength l.chars
  line := st.line
  tokens := st.tokens ++
    [⟨Token.kindOfLexeme st.pos l, ⟨st.pos, l.chars⟩, st.pos == st.line⟩]

/-- What comes of a step: the scanner behind the lexeme, or the flaw at which reading ends. -/
def State.takeStep (st : State) : Step → Except Flaw State
  | .ended ending => (Token.liveAtEnd st.pos ending).map fun _ => st
  | .lexeme l live _ => .ok (st.take l live)

/-- A tag is cut off where it stands. -/
theorem State.pushTag_append {st : State} {passed : List Char}
    (hpos : st.pos = byteLength passed) (l : Lexeme) (after : List Char) (live : Delimiters) :
    st.pushTag (passed ++ (l.chars ++ after)) (Token.kindOfLexeme st.pos l)
      (st.pos + byteLength l.chars) live = some (st.take l live) := by
  have hwhole := cut?_append passed l.chars after
  rw [byteLength_append, ← hpos] at hwhole
  rw [pushTag, hwhole]
  rfl

/-- The scanner stands behind the mark of a tag, if it has one. -/
theorem pos_behind_mark (passed : List Char) (sigil : Sigil) (rest : List Char) :
    (if sigil = .plain then byteLength passed
      else seek (passed ++ (sigil.mark ++ rest)) (byteLength passed) 1) =
      byteLength (passed ++ sigil.mark) := by
  by_cases hplain : sigil = .plain
  · simp [hplain, Sigil.mark]
  · have hone : byteLength sigil.mark = 1 := by
      cases sigil with
      | plain => exact absurd rfl hplain
      | _ => rfl
    rw [if_neg hplain, ← hone, seek_append]

/-- A tag is read as by characters. -/
theorem readTag_append {st : State} {passed inner : List Char}
    (hpos : st.pos = byteLength passed) :
    st.readTag (passed ++ (st.live.left.chars ++ inner)) =
      some (st.takeStep (Step.readTag st.live (Sigil.read inner).1 (Sigil.read inner).2)) := by
  obtain ⟨sigil, rest, hread⟩ : ∃ sigil rest, Sigil.read inner = (sigil, rest) := ⟨_, _, rfl⟩
  have hinner : sigil.mark ++ rest = inner := by
    have happend := Sigil.mark_append_of_read inner
    rwa [hread] at happend
  have hopened : seek (passed ++ (st.live.left.chars ++ inner)) st.pos
      (byteLength st.live.left.chars) = byteLength (passed ++ st.live.left.chars) := by
    rw [hpos, seek_append]
  have hsigil : Sigil.ofByte (peek? (passed ++ (st.live.left.chars ++ inner))
      (byteLength (passed ++ st.live.left.chars))) = sigil := by
    rw [← List.append_assoc, peek?_behind, Sigil.ofByte_head, hread]
  have hmark := pos_behind_mark (passed ++ st.live.left.chars) sigil rest
  rw [hinner, List.append_assoc] at hmark
  rw [hread]
  unfold State.readTag
  simp only [hopened, hsigil, hmark]
  generalize hbehind : passed ++ st.live.left.chars ++ sigil.mark = behind
  have hsource : passed ++ (st.live.left.chars ++ inner) = behind ++ rest := by
    simp [← hbehind, ← hinner]
  rw [hsource, readUntil?_append, Step.readTag]
  cases hfound : breakOn (sigil.terminator st.live) rest with
  | none => rfl
  | some found =>
    obtain ⟨body, after⟩ := found
    have hrest := breakOn_eq_some hfound
    have hstop : byteLength ((behind ++ body) ++ sigil.terminator st.live) =
        st.pos + byteLength (Lexeme.tag st.live sigil body).chars := by
      rw [hpos, ← hbehind]
      simp [Lexeme.chars]
    have hseek := seek_append (behind ++ body) (sigil.terminator st.live) after
    rw [List.append_assoc, ← hrest, hstop] at hseek
    have hbody := cut?_append behind body (sigil.terminator st.live ++ after)
    rw [← hrest] at hbody
    have hwhole : passed ++ ((Lexeme.tag st.live sigil body).chars ++ after) = behind ++ rest := by
      simp [← hbehind, hrest, Lexeme.chars]
    have hkind : Token.kindOfLexeme st.pos (.tag st.live sigil body) =
        Token.kindOfTag sigil (Fragment.trimmed ⟨byteLength behind, body⟩) := by
      rw [Token.kindOfLexeme, hpos, ← byteLength_append, ← byteLength_append, hbehind]
    have hpush := State.pushTag_append hpos (.tag st.live sigil body) after
    rw [hwhole, hkind] at hpush
    simp only [Option.map_some, hseek, hbody, hpush]
    by_cases hequals : sigil = .equals
    · subst hequals
      simp only [if_pos]
      cases Delimiters.ofBody? body with
      | none => rfl
      | some live => rfl
    · simp only [if_neg hequals]
      rfl

end Scanner

end Mustache
