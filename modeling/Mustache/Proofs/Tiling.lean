import Mustache.Proofs.Verbatim

/-!
# Tokens tile their source

The tokens of a source cover it from its beginning to its end, without a gap and
without an overlap.  They are read one after the other under the live pair of
markers: a text holds no place where the left marker stands, a tag stands between
the two markers, and a set delimiter tag names the pair that is live from its end
on.

Main results:

- Theorem `Step.cases_of_read_eq_lexeme`: all that a step can read.
- Theorem `Token.tiles_ofLexemes`: lexemes in place tile what they cover.
- Theorem `Token.readFrom_ofLexemes`: tokens are read under the live pair.
- Theorem `Token.tokenized_of_ofSource`: both together, with the flags of lines; and a
  source without the left marker is rendered to itself.
-/

namespace Mustache

/-! ## Tilings -/

/-- Stretches in a row, none of them empty, that cover all from one offset up to another. -/
def Span.Tiles (start stop : Nat) : List Span → Prop
  | [] => start = stop
  | s :: ss => s.start = start ∧ s.start < s.stop ∧ Tiles s.stop stop ss

/-- A text that is not empty has a length. -/
theorem Text.byteLength_pos {cs : List Char} (h : cs ≠ []) : 0 < byteLength cs := by
  cases cs with
  | nil => exact absurd rfl h
  | cons c cs =>
    have := c.utf8Size_pos
    rw [byteLength_cons]
    omega

namespace Token

/-! ## Tokens under the live pair -/

/-- Tokens that are read while a pair is live, up to a place where another one may be: no left
marker begins in a text, a newline is the last character of its text, and every tag stands between
the markers of the pair that is live. -/
inductive ReadFrom : Delimiters → List Token → Delimiters → Prop
  | nil (live : Delimiters) : ReadFrom live [] live
  | text {live last : Delimiters} {t : Token} {ts : List Token} (kind : t.kind = .text)
      (clear : Text.Clear live.left.chars t.whole.text (ts.flatMap fun u => u.whole.text))
      (newline : ∀ x y, t.whole.text = x ++ '\n' :: y → y = [])
      (rest : ReadFrom live ts last) : ReadFrom live (t :: ts) last
  | tag {live last : Delimiters} {t : Token} {ts : List Token} {inner : List Char}
      (notText : t.kind ≠ .text) (notSet : t.kind ≠ .setDelimiters)
      (whole : t.whole.text = live.left.chars ++ (inner ++ live.right.chars))
      (rest : ReadFrom live ts last) : ReadFrom live (t :: ts) last
  | setDelimiters {live next last : Delimiters} {t : Token} {ts : List Token} {body : List Char}
      (kind : t.kind = .setDelimiters)
      (whole : t.whole.text =
        live.left.chars ++ ('=' :: (body ++ ('=' :: live.right.chars))))
      (named : Delimiters.NamedBy body next) (rest : ReadFrom next ts last) :
      ReadFrom live (t :: ts) last

end Token

/-! ## Steps -/

namespace Step

/-- No left marker begins in a run of text. -/
theorem clear_textRun (m : Marker) (cs : List Char) :
    Text.Clear m.chars (textRun m.chars cs).1 (textRun m.chars cs).2 := by
  induction cs with
  | nil =>
    rintro t₁ t₂ htext hne
    simp [textRun] at htext
    exact absurd htext.2 hne
  | cons c cs ih =>
    obtain ⟨d, ds, hchars, hblank⟩ := m.exists_cons
    rw [textRun]
    by_cases hc : c = '\n'
    · rw [if_pos hc]
      intro t₁ t₂ htext hne hprefix
      have ht₁ : t₁ = [] := by
        cases t₁ with
        | nil => rfl
        | cons e t₁ => simp_all
      rw [ht₁, List.nil_append] at htext
      rw [← htext, hchars, hc] at hprefix
      have hd : d = '\n' := (List.cons_prefix_cons.1 hprefix).1
      rw [hd] at hblank
      exact absurd hblank (by decide)
    · rw [if_neg hc]
      split
      · intro t₁ t₂ htext hne
        simp at htext
        exact absurd htext.2 hne
      · rename_i hno
        intro t₁ t₂ htext hne
        cases t₁ with
        | nil =>
          rw [List.nil_append] at htext
          rw [← htext, List.cons_append, textRun_append, ← List.isPrefixOf_iff_prefix]
          exact hno
        | cons e t₁ =>
          exact ih t₁ t₂ (List.cons.inj htext).2 hne

/-- A run of text goes no farther than a newline. -/
theorem eq_nil_of_textRun_eq (left cs x y : List Char)
    (h : (textRun left cs).1 = x ++ '\n' :: y) : y = [] := by
  induction cs generalizing x with
  | nil => simp [textRun] at h
  | cons c cs ih =>
    rw [textRun] at h
    split at h
    · cases x with
      | nil => exact (List.cons.inj h).2.symm
      | cons d x => simp at h
    · rename_i hc
      split at h
      · simp at h
      · cases x with
        | nil => exact absurd (List.cons.inj h).1 hc
        | cons d x => exact ih x (List.cons.inj h).2

/-- What is read as a tag stands between the markers; a set delimiter tag names the pair that is
live after it, and every other tag leaves the pair as it is. -/
theorem cases_of_readTag_eq_lexeme {pair live : Delimiters} {sigil : Sigil}
    {inner rest : List Char} {l : Lexeme} (h : readTag pair sigil inner = .lexeme l live rest) :
    ∃ body, l = .tag pair sigil body ∧
      (sigil = .equals ∧ Delimiters.NamedBy body live ∨ sigil ≠ .equals ∧ live = pair) := by
  unfold readTag at h
  split at h
  · cases h
  · rename_i body rest' _
    by_cases hequals : sigil = .equals
    · rw [if_pos hequals] at h
      cases hbody : Delimiters.ofBody? body with
      | none =>
        rw [hbody] at h
        cases h
      | some named =>
        rw [hbody] at h
        cases h
        exact ⟨body, rfl, .inl ⟨hequals, Delimiters.ofBody?_eq_some_iff.1 hbody⟩⟩
    · rw [if_neg hequals] at h
      cases h
      exact ⟨body, rfl, .inr ⟨hequals, rfl⟩⟩

/-- A step reads a run of text, if no tag begins, or a tag under the live pair. -/
theorem cases_of_read_eq_lexeme {pair live : Delimiters} {cs rest : List Char} {l : Lexeme}
    (h : read pair cs = .lexeme l live rest) :
    (l = .text (textRun pair.left.chars cs).1 ∧ rest = (textRun pair.left.chars cs).2 ∧
        live = pair ∧ ¬ pair.left.chars <+: cs) ∨
      ∃ sigil body, l = .tag pair sigil body ∧
        (sigil = .equals ∧ Delimiters.NamedBy body live ∨ sigil ≠ .equals ∧ live = pair) := by
  cases cs with
  | nil => cases h
  | cons c cs =>
    rw [read] at h
    split at h
    · obtain ⟨body, hl, hlive⟩ := cases_of_readTag_eq_lexeme h
      exact .inr ⟨_, body, hl, hlive⟩
    · rename_i hno
      cases h
      exact .inl ⟨rfl, rfl, rfl, fun hprefix => hno (List.isPrefixOf_iff_prefix.2 hprefix)⟩

end Step

namespace Token

/-! ## Tokens in place -/

/-- Lexemes in place tile what they cover. -/
theorem tiles_ofLexemes (start : Nat) (beginsLine : Bool) {ls : List Lexeme}
    (hne : ∀ l ∈ ls, l.chars ≠ []) :
    Span.Tiles start (start + Text.byteLength (ls.flatMap Lexeme.chars))
      ((ofLexemes start beginsLine ls).map fun t => t.whole.span) := by
  induction ls generalizing start beginsLine with
  | nil => simp [ofLexemes, Span.Tiles]
  | cons l ls ih =>
    have hpos := Text.byteLength_pos (hne l List.mem_cons_self)
    have hrest := ih (start + Text.byteLength l.chars) (l.chars.getLast? == some '\n')
      fun l' hl' => hne l' (List.mem_cons_of_mem _ hl')
    rw [Nat.add_assoc] at hrest
    refine ⟨rfl, ?_, ?_⟩
    · show start < start + Text.byteLength l.chars
      omega
    · rw [List.flatMap_cons, Text.byteLength_append]
      exact hrest

/-- A tag is no text, and only the tag with an equals sign sets delimiters. -/
theorem kindOfTag_ne_text (sigil : Sigil) (name : Fragment) : kindOfTag sigil name ≠ .text := by
  cases sigil <;> simp [kindOfTag]

theorem kindOfTag_ne_setDelimiters {sigil : Sigil} (h : sigil ≠ .equals) (name : Fragment) :
    kindOfTag sigil name ≠ .setDelimiters := by
  cases sigil <;> simp_all [kindOfTag]

/-- The terminator of a tag ends with the right marker. -/
theorem exists_terminator_eq (sigil : Sigil) (pair : Delimiters) :
    ∃ x, sigil.terminator pair = x ++ pair.right.chars := by
  cases sigil with
  | brace => exact ⟨['}'], rfl⟩
  | equals => exact ⟨['='], rfl⟩
  | _ => exact ⟨[], rfl⟩

/-- The tokens of a template that is read to its end are read under the live pair. -/
theorem readFrom_ofLexemes {pair live : Delimiters} {cs : List Char}
    (h : (Scan.read pair cs).ending = .finished live) (start : Nat) (beginsLine : Bool) :
    ReadFrom pair (ofLexemes start beginsLine (Scan.read pair cs).lexemes) live := by
  fun_induction Scan.read pair cs generalizing start beginsLine with
  | case1 pair cs ending hstep =>
    obtain rfl : ending = .finished live := h
    obtain ⟨-, rfl⟩ := Step.eq_nil_of_read_eq_finished hstep
    exact .nil live
  | case2 pair cs l next rest hstep ih =>
    replace h : (Scan.read next rest).ending = .finished live := h
    have hrest := ih h (start + Text.byteLength l.chars) (l.chars.getLast? == some '\n')
    show ReadFrom pair (⟨kindOfLexeme start l, ⟨start, l.chars⟩, beginsLine⟩ ::
      ofLexemes (start + Text.byteLength l.chars) (l.chars.getLast? == some '\n')
        (Scan.read next rest).lexemes) live
    rcases Step.cases_of_read_eq_lexeme hstep with
      ⟨rfl, hrun, rfl, -⟩ | ⟨sigil, body, rfl, ⟨rfl, hnamed⟩ | ⟨hsigil, rfl⟩⟩
    · refine .text rfl ?_ (Step.eq_nil_of_textRun_eq next.left.chars cs) hrest
      rw [flatMap_text_ofLexemes, Scan.flatMap_chars_read h, hrun]
      exact Step.clear_textRun next.left cs
    · exact .setDelimiters rfl rfl hnamed hrest
    · obtain ⟨x, hx⟩ := exists_terminator_eq sigil next
      have hwhole : (Lexeme.tag next sigil body).chars =
          next.left.chars ++ ((sigil.mark ++ (body ++ x)) ++ next.right.chars) := by
        simp [Lexeme.chars, hx]
      exact .tag (kindOfTag_ne_text _ _) (kindOfTag_ne_setDelimiters hsigil _) hwhole hrest

/-- A token stands at the beginning of a source line if its offset is the first one, or a newline
stands in front of it. -/
theorem beginsSourceLine_iff_start {source : List Char} {t : Token}
    (ht : t.whole.StandsIn source) :
    t.BeginsSourceLine source ↔ t.whole.start = 0 ∨
      ∃ before after, source = before ++ '\n' :: after ∧
        t.whole.start = Text.byteLength (before ++ ['\n']) := by
  obtain ⟨before, after, hsource, hstart⟩ := ht
  rw [beginsSourceLine_iff hsource hstart]
  constructor
  · intro hends
    rcases List.eq_nil_or_concat before with rfl | ⟨lines, c, rfl⟩
    · exact .inl hstart
    · have hc : c = '\n' := hends c (by simp)
      refine .inr ⟨lines, t.whole.text ++ after, ?_, ?_⟩
      · simpa [hc] using hsource
      · simpa [hc] using hstart
  · rintro (hzero | ⟨lines, rest, hlines, hlength⟩)
    · have hempty : before = [] := by
        by_contra hne
        have := Text.byteLength_pos hne
        omega
      simp [hempty, EndsLine]
    · have hbefore : before = lines ++ ['\n'] := by
        have hsame : before ++ (t.whole.text ++ after) = (lines ++ ['\n']) ++ rest := by
          rw [← hsource, hlines, List.append_assoc]
          rfl
        exact Text.append_inj_of_byteLength hsame (hstart.symm.trans hlength)
      simp [hbefore, EndsLine]

/-- What the tokens of a source are: they tile it, each covers its own text, they are read from the
starting pair to the pair that is live at the end, and they are flagged where a line begins. -/
structure Tokenized (pair : Delimiters) (source : List Char) (stream : Stream) : Prop where
  tiles : Span.Tiles 0 (Text.byteLength source) (stream.tokens.map fun t => t.whole.span)
  cut : ∀ t ∈ stream.tokens,
    Text.slice t.whole.span.start t.whole.span.stop source = t.whole.text
  read : ReadFrom pair stream.tokens stream.live
  beginsLine : ∀ t ∈ stream.tokens, t.beginsLine = true ↔ t.whole.span.start = 0 ∨
    ∃ before after, source = before ++ '\n' :: after ∧
      t.whole.span.start = Text.byteLength (before ++ ['\n'])

/-- Reading a source that has tokens loses nothing and marks its lines.  If the left marker of the
starting pair does not occur in a source, the source is rendered to itself, after any requests and
for every view. -/
theorem tokenized_of_ofSource (pair : Delimiters) (source : String) :
    (∀ stream, ofSource pair source.toList = .ok stream →
      Tokenized pair source.toList stream) ∧
    (¬ pair.left.chars <:+: source.toList →
      ∀ {σ : Type} (host : Host σ) (limit : Nat) (init : σ) (history : List Request)
        (view : Value),
        let s := ((Session.start pair limit init).answerAll host history).2
        ∃ a, Engine.render host source view ⟨s.engine, s.host, [], []⟩ = .ok source a) := by
  constructor
  · intro stream h
    obtain ⟨hending, htokens⟩ := ofScan_eq_ok h
    have hstands : ∀ t ∈ stream.tokens, t.whole.StandsIn source.toList := fun t ht =>
      standsIn_of_ofSource h t ht t.whole List.mem_cons_self
    have hne := Scan.chars_ne_nil_of_mem pair source.toList
    refine ⟨?_, ?_, ?_, ?_⟩
    · have htiles := tiles_ofLexemes 0 true hne
      rw [Scan.flatMap_chars_read hending, Nat.zero_add] at htiles
      rw [htokens]
      exact htiles
    · exact fun t ht => (hstands t ht).slice_span
    · rw [htokens]
      exact readFrom_ofLexemes hending 0 true
    · intro t ht
      rw [beginsLine_iff_of_ofSource h t ht]
      exact beginsSourceLine_iff_start (hstands t ht)
  · intro habsent σ host limit init history view
    exact Session.render_of_absent host pair limit init history source view habsent

/-- Two lines, of which the first sets delimiters, and a line without any tag. -/
theorem tokenized_of_ofSource_setDelimiters :
    let source := "{{=| |=}}\n|é|"
    let tokens : List Token :=
      [⟨.setDelimiters, ⟨0, ['{', '{', '=', '|', ' ', '|', '=', '}', '}']⟩, true⟩,
        ⟨.text, ⟨9, ['\n']⟩, false⟩,
        ⟨.interpolation .escaped ⟨11, ['é']⟩, ⟨10, ['|', 'é', '|']⟩, true⟩]
    let live : Delimiters := ⟨⟨['|'], by decide⟩, ⟨['|'], by decide⟩⟩
    let host : Host Unit := ⟨fun _ _ s => ("", s)⟩
    let s := ((Session.start .standard 64 ()).answerAll host []).2
    (ofSource .standard source.toList = .ok ⟨tokens, live⟩ ∧
      Tokenized .standard source.toList ⟨tokens, live⟩) ∧
    (¬ Delimiters.standard.left.chars <:+: "a\n \x7d\x7d".toList ∧
      ∃ a, Engine.render host "a\n \x7d\x7d" .null ⟨s.engine, s.host, [], []⟩ = .ok "a\n \x7d\x7d" a) := by
  intro source tokens live host s
  have h : ofSource .standard source.toList = .ok ⟨tokens, live⟩ := by decide +kernel
  have habsent : ¬ Delimiters.standard.left.chars <:+: "a\n \x7d\x7d".toList := by decide +kernel
  exact ⟨⟨h, (tokenized_of_ofSource .standard source).1 _ h⟩, habsent,
    (tokenized_of_ofSource .standard "a\n \x7d\x7d").2 habsent host 64 () [] .null⟩

end Token

end Mustache
