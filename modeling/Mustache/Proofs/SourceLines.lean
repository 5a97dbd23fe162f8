import Mathlib.Data.List.Chain
import Mathlib.Data.List.SplitBy
import Mustache.Line

/-!
# Lines of tokens and lines of the source

A token carries a flag for the beginning of a source line.  The flag is set
while the source is read, from the last character of what was read before.  It
says the same as the place of the token: nothing or a newline stands before it.

Main results:

- Theorem `Token.beginsLine_iff_of_ofSource`: a token is flagged exactly if it stands
  at the beginning of a source line.
- Theorem `Token.isSourceLine_of_mem_lines`: cutting at the flags cuts the tokens
  into source lines.
- Theorem `Token.newline_not_mem_of_mem_lines`: only the last token of a line has
  a newline, if it is text.
-/

namespace Mustache

/-! ## Lexemes -/

namespace Step

/-- In a run of text, a newline is the last character. -/
theorem getLast?_textRun_of_newline_mem {left cs : List Char} (h : '\n' ∈ (textRun left cs).1) :
    (textRun left cs).1.getLast? = some '\n' := by
  induction cs with
  | nil => cases h
  | cons c cs ih =>
    rw [textRun] at h ⊢
    split at h
    · rename_i hc
      rw [if_pos hc, hc]
      rfl
    · rename_i hc
      rw [if_neg hc]
      split at h
      · cases h
      · rename_i hprefix
        rw [if_neg hprefix]
        have hmem : '\n' ∈ (textRun left cs).1 := by
          rcases List.mem_cons.1 h with heq | hmem
          · exact absurd heq.symm hc
          · exact hmem
        show (c :: (textRun left cs).1).getLast? = some '\n'
        rw [List.getLast?_cons, ih hmem]
        rfl

/-- A tag is no text. -/
theorem ne_text_of_readTag_eq_lexeme {pair live : Delimiters} {sigil : Sigil}
    {inner rest chars : List Char} :
    readTag pair sigil inner ≠ .lexeme (.text chars) live rest := by
  unfold readTag
  split
  · simp
  · split
    · split <;> simp
    · simp

/-- In a lexeme of text, a newline is the last character. -/
theorem getLast?_of_read_eq_text {pair live : Delimiters} {cs rest chars : List Char}
    (h : read pair cs = .lexeme (.text chars) live rest) (hmem : '\n' ∈ chars) :
    chars.getLast? = some '\n' := by
  cases cs with
  | nil => cases h
  | cons c cs =>
    rw [read] at h
    split at h
    · exact absurd h ne_text_of_readTag_eq_lexeme
    · cases h
      exact getLast?_textRun_of_newline_mem hmem

end Step

/-- What every step yields holds of all lexemes of a template. -/
theorem Scan.forall_lexemes {P : Lexeme → Prop}
    (hstep : ∀ pair cs l live rest, Step.read pair cs = .lexeme l live rest → P l)
    (pair : Delimiters) (cs : List Char) : ∀ l ∈ (read pair cs).lexemes, P l := by
  fun_induction read pair cs with
  | case1 pair cs ending h => simp
  | case2 pair cs l live rest h ih =>
    intro l' hl'
    rcases List.mem_cons.1 hl' with rfl | hl'
    · exact hstep _ _ _ _ _ h
    · exact ih l' hl'

/-- No lexeme of a template is empty. -/
theorem Scan.chars_ne_nil_of_mem (pair : Delimiters) (cs : List Char) :
    ∀ l ∈ (read pair cs).lexemes, l.chars ≠ [] := by
  refine forall_lexemes ?_ pair cs
  intro pair cs l live rest hstep
  exact (Step.append_of_read_eq_lexeme hstep).2

/-! ## Places in the source -/

/-- The text is empty or ends with a newline. -/
def EndsLine (cs : List Char) : Prop :=
  ∀ c, cs.getLast? = some c → c = '\n'

/-- A text in front of another one is as long as what is cut off for it. -/
theorem Text.append_inj_of_byteLength {xs ys xs' ys' : List Char} (h : xs ++ ys = xs' ++ ys')
    (hlength : byteLength xs = byteLength xs') : xs = xs' := by
  rw [← takeBytes_append xs ys, h, hlength, takeBytes_append]

/-- After a text that is not empty, a line ends where the text does. -/
theorem endsLine_append_iff {xs ys : List Char} (hne : ys ≠ []) :
    EndsLine (xs ++ ys) ↔ ys.getLast? = some '\n' := by
  have hlast := List.getLast?_eq_some_getLast hne
  have happend : (xs ++ ys).getLast? = some (ys.getLast hne) := by
    rw [List.getLast?_append, hlast]
    rfl
  unfold EndsLine
  rw [happend, hlast]
  simp

/-- None of the lexemes ends a source line. -/
def EndNoLine (ls : List Lexeme) : Prop :=
  ∀ l ∈ ls, (l.chars.getLast? == some '\n') = false

namespace EndNoLine

variable {ls : List Lexeme}

theorem of_newline_not_mem (h : ∀ l ∈ ls, '\n' ∉ l.chars) : EndNoLine ls := by
  intro l hl
  by_contra hnewline
  refine h l hl (List.mem_of_getLast? ?_)
  simpa using hnewline

theorem append {ls' : List Lexeme} (h : EndNoLine ls) (h' : EndNoLine ls') :
    EndNoLine (ls ++ ls') :=
  List.forall_mem_append.2 ⟨h, h'⟩

theorem dropLast (h : EndNoLine ls) : EndNoLine ls.dropLast :=
  fun l hl => h l (List.dropLast_subset ls hl)

end EndNoLine

namespace Token

/-- The token stands at the beginning of the source, or after a newline. -/
def BeginsSourceLine (source : List Char) (t : Token) : Prop :=
  ∃ before after, source = before ++ (t.whole.text ++ after) ∧
    t.whole.start = Text.byteLength before ∧ EndsLine before

/-- Whether a token stands at the beginning of a line is told by the text before it. -/
theorem beginsSourceLine_iff {source before after : List Char} {t : Token}
    (hsource : source = before ++ (t.whole.text ++ after))
    (hstart : t.whole.start = Text.byteLength before) :
    t.BeginsSourceLine source ↔ EndsLine before := by
  constructor
  · rintro ⟨before', after', hsource', hstart', hends⟩
    rw [Text.append_inj_of_byteLength (hsource.symm.trans hsource') (hstart.symm.trans hstart')]
    exact hends
  · exact fun hends => ⟨before, after, hsource, hstart, hends⟩

/-- A flag is right if it tells whether a line begins where the text before the token ends. -/
theorem beginsLine_iff_of_ofLexemes {source : List Char} (before : List Char) {beginsLine : Bool}
    {ls : List Lexeme} (hne : ∀ l ∈ ls, l.chars ≠ [])
    (hsource : source = before ++ ls.flatMap Lexeme.chars)
    (hflag : beginsLine = true ↔ EndsLine before) :
    ∀ t ∈ ofLexemes (Text.byteLength before) beginsLine ls,
      t.beginsLine = true ↔ t.BeginsSourceLine source := by
  induction ls generalizing before beginsLine with
  | nil =>
    intro t ht
    simp [ofLexemes] at ht
  | cons l ls ih =>
    intro t ht
    rcases List.mem_cons.1 ht with rfl | ht
    · rw [beginsSourceLine_iff hsource rfl]
      exact hflag
    · have hstop : Fragment.stop ⟨Text.byteLength before, l.chars⟩ =
          Text.byteLength (before ++ l.chars) := by
        simp [Fragment.stop]
      rw [hstop] at ht
      refine ih (before ++ l.chars) (fun l' hl' => hne l' (List.mem_cons_of_mem _ hl')) ?_ ?_ t ht
      · rw [hsource, List.flatMap_cons, List.append_assoc]
      · rw [endsLine_append_iff (hne l List.mem_cons_self), beq_iff_eq]

/-- A token is flagged exactly if it stands at the beginning of a source line. -/
theorem beginsLine_iff_of_ofSource {pair : Delimiters} {source : List Char} {stream : Stream}
    (h : ofSource pair source = .ok stream) :
    ∀ t ∈ stream.tokens, t.beginsLine = true ↔ t.BeginsSourceLine source := by
  obtain ⟨hending, htokens⟩ := ofScan_eq_ok h
  rw [htokens]
  refine beginsLine_iff_of_ofLexemes [] ?_ ?_ ?_
  · exact Scan.chars_ne_nil_of_mem pair source
  · exact (Scan.flatMap_chars_read hending).symm
  · simp [EndsLine]

/-- Every token is a lexeme at its place. -/
theorem exists_of_mem_ofLexemes {start : Nat} {beginsLine : Bool} {ls : List Lexeme} {t : Token}
    (h : t ∈ ofLexemes start beginsLine ls) :
    ∃ l ∈ ls, t.kind = kindOfLexeme t.whole.start l ∧ t.whole.text = l.chars := by
  induction ls generalizing start beginsLine with
  | nil => simp [ofLexemes] at h
  | cons l ls ih =>
    rcases List.mem_cons.1 h with rfl | h
    · exact ⟨l, List.mem_cons_self, rfl, rfl⟩
    · obtain ⟨l', hl', heq⟩ := ih h
      exact ⟨l', List.mem_cons_of_mem _ hl', heq⟩

/-- Every token of a source is a lexeme at its place, and covers something. -/
theorem exists_lexeme_of_ofSource {pair : Delimiters} {source : List Char} {stream : Stream}
    (h : ofSource pair source = .ok stream) {t : Token} (ht : t ∈ stream.tokens) :
    ∃ l : Lexeme, l.chars ≠ [] ∧ t.kind = kindOfLexeme t.whole.start l ∧
      t.whole.text = l.chars := by
  rw [(ofScan_eq_ok h).2] at ht
  obtain ⟨l, hl, hkind, htext⟩ := exists_of_mem_ofLexemes ht
  exact ⟨l, Scan.chars_ne_nil_of_mem pair source l hl, hkind, htext⟩

/-- Whether what stands behind some lexemes begins a source line. -/
def flagBehind (beginsLine : Bool) : List Lexeme → Bool
  | [] => beginsLine
  | l :: ls => flagBehind (l.chars.getLast? == some '\n') ls

/-- Lexemes behind others are placed where those end. -/
theorem ofLexemes_append (start : Nat) (beginsLine : Bool) (xs ys : List Lexeme) :
    ofLexemes start beginsLine (xs ++ ys) = ofLexemes start beginsLine xs ++
      ofLexemes (start + Text.byteLength (xs.flatMap Lexeme.chars)) (flagBehind beginsLine xs)
        ys := by
  induction xs generalizing start beginsLine with
  | nil => rfl
  | cons l ls ih =>
    have hrest := ih (start + Text.byteLength l.chars) (l.chars.getLast? == some '\n')
    rw [List.flatMap_cons, Text.byteLength_append, ← Nat.add_assoc]
    exact congrArg (List.cons _) hrest

/-- What stands behind lexemes that end no line begins none. -/
theorem flagBehind_of_endNoLine {ls : List Lexeme} (h : EndNoLine ls) (hne : ls ≠ [])
    (beginsLine : Bool) : flagBehind beginsLine ls = false := by
  induction ls generalizing beginsLine with
  | nil => exact absurd rfl hne
  | cons l ls ih =>
    cases ls with
    | nil => exact h l List.mem_cons_self
    | cons l' ls =>
      rw [flagBehind]
      exact ih (fun m hm => h m (List.mem_cons_of_mem _ hm)) (by simp) _

/-- A lexeme whose token is text is text. -/
theorem eq_text_of_kindOfLexeme {start : Nat} {l : Lexeme} (h : kindOfLexeme start l = .text) :
    ∃ chars, l = .text chars := by
  cases l with
  | text chars => exact ⟨chars, rfl⟩
  | tag pair sigil body => cases sigil <;> cases h

/-- In a token of text, a newline is the last character. -/
theorem getLast?_of_newline_mem {pair : Delimiters} {source : List Char} {stream : Stream}
    (h : ofSource pair source = .ok stream) {t : Token} (ht : t ∈ stream.tokens)
    (hkind : t.kind = .text) (hmem : '\n' ∈ t.whole.text) :
    t.whole.text.getLast? = some '\n' := by
  rw [(ofScan_eq_ok h).2] at ht
  obtain ⟨l, hl, hlexeme, htext⟩ := exists_of_mem_ofLexemes ht
  obtain ⟨chars, rfl⟩ := eq_text_of_kindOfLexeme (hlexeme.symm.trans hkind)
  rw [htext] at hmem ⊢
  have hlexemes : ∀ l ∈ (Scan.read pair source).lexemes, ∀ chars, l = .text chars →
      '\n' ∈ chars → chars.getLast? = some '\n' := by
    refine Scan.forall_lexemes ?_ pair source
    intro pair cs l live rest hstep chars hl
    rw [hl] at hstep
    exact Step.getLast?_of_read_eq_text hstep
  exact hlexemes _ hl chars rfl hmem

/-! ## Lines of tokens -/

/-- The flag of a token tells whether the token before it ends with a newline. -/
theorem isChain_ofLexemes (start : Nat) (beginsLine : Bool) (ls : List Lexeme) :
    (ofLexemes start beginsLine ls).IsChain
      fun t next => next.beginsLine = (t.whole.text.getLast? == some '\n') := by
  induction ls generalizing start beginsLine with
  | nil => exact .nil
  | cons l ls ih =>
    rw [ofLexemes]
    refine (ih _ _).cons ?_
    intro next hnext
    cases ls with
    | nil => cases hnext
    | cons l' ls =>
      cases hnext
      rfl

/-- Tokens without flags behind the first one are a chain of neighbours of one line. -/
theorem isChain_of_forall_tail {ts : List Token} (h : ∀ t ∈ ts.tail, t.beginsLine = false) :
    ts.IsChain fun _ next => (!next.beginsLine) = true := by
  induction ts with
  | nil => exact .nil
  | cons t ts ih =>
    cases ts with
    | nil => exact .singleton t
    | cons u us =>
      have hu : u.beginsLine = false := h u List.mem_cons_self
      have hus := ih fun v hv => h v (List.mem_cons_of_mem _ hv)
      exact .cons_cons (by simp [hu]) hus

/-- Where none but the last of the lexemes ends a line, none but the first begins one. -/
theorem beginsLine_of_mem_tail_ofLexemes {ls : List Lexeme} (h : EndNoLine ls.dropLast)
    (start : Nat) (beginsLine : Bool) :
    ∀ t ∈ (ofLexemes start beginsLine ls).tail, t.beginsLine = false := by
  induction ls generalizing start beginsLine with
  | nil => simp [ofLexemes]
  | cons l ls ih =>
    cases ls with
    | nil => simp [ofLexemes]
    | cons l' ls =>
      rw [EndNoLine, List.dropLast_cons_cons, List.forall_mem_cons] at h
      rw [ofLexemes, List.tail_cons, h.1]
      exact List.forall_mem_cons.2 ⟨rfl, ih h.2 _ false⟩

/-- Lexemes of which none but the last ends a line are one line. -/
theorem lines_ofLexemes {ls : List Lexeme} (h : EndNoLine ls.dropLast) (hne : ls ≠ [])
    (start : Nat) (beginsLine : Bool) :
    lines (ofLexemes start beginsLine ls) = [ofLexemes start beginsLine ls] := by
  refine List.splitBy_of_isChain ?_ (isChain_of_forall_tail
    (beginsLine_of_mem_tail_ofLexemes h start beginsLine))
  cases ls with
  | nil => exact absurd rfl hne
  | cons l ls => simp [ofLexemes]

/-- The tokens of one source line: the first one, and no other, begins a line. -/
def IsSourceLine (source : List Char) (line : List Token) : Prop :=
  ∃ first others, line = first :: others ∧ first.BeginsSourceLine source ∧
    ∀ t ∈ others, ¬ t.BeginsSourceLine source

/-- The lines are cut out of the tokens. -/
theorem flatten_lines (tokens : List Token) : (lines tokens).flatten = tokens :=
  List.flatten_splitBy _ tokens

/-- The tokens of a line are among those that are cut. -/
theorem mem_of_mem_lines {tokens line : List Token} (hline : line ∈ lines tokens) {t : Token}
    (ht : t ∈ line) : t ∈ tokens := by
  rw [← flatten_lines tokens]
  exact List.mem_flatten_of_mem hline ht

/-- If the first token is flagged, all lines begin with a flagged token. -/
theorem beginsLine_head?_of_mem_lines {tokens : List Token}
    (hfirst : ∀ t ∈ tokens.head?, t.beginsLine = true) :
    ∀ line ∈ lines tokens, ∀ t ∈ line.head?, t.beginsLine = true := by
  refine (List.isChain_getLast_head_splitBy _ tokens).induction
    (fun line => ∀ t ∈ line.head?, t.beginsLine = true) _ ?_ ?_
  · rintro line next ⟨hline, hnext, hrel⟩ -
    rw [List.head?_eq_some_head hnext]
    rintro t ⟨⟩
    simpa using hrel
  · intro hne
    have htokens : tokens ≠ [] := List.splitBy_ne_nil.1 hne
    have hhead := List.head_head_splitBy (fun _ (next : Token) => !next.beginsLine) htokens
    rw [List.head?_eq_some_head (List.ne_nil_of_mem_splitBy (List.head_mem hne))]
    rintro t ⟨⟩
    rw [hhead]
    exact hfirst _ (List.head?_eq_some_head htokens)

/-- What holds of every element of a chain but the first one. -/
theorem forall_of_isChain_cons {P : Token → Prop} {t : Token} {ts : List Token}
    (h : (t :: ts).IsChain fun _ next => P next) : ∀ u ∈ ts, P u := by
  induction ts generalizing t with
  | nil => simp
  | cons u us ih =>
    rw [List.isChain_cons_cons] at h
    intro v hv
    rcases List.mem_cons.1 hv with rfl | hv
    · exact h.1
    · exact ih h.2 v hv

/-- What holds of every element of a chain that another one follows. -/
theorem forall_of_isChain_append {P : Token → Prop} {ts us : List Token} {u : Token}
    (h : (ts ++ u :: us).IsChain fun t _ => P t) : ∀ t ∈ ts, P t := by
  intro t ht
  obtain ⟨before, after, rfl⟩ := List.append_of_mem ht
  rw [List.append_assoc, List.cons_append] at h
  cases after with
  | nil => exact (List.isChain_append_cons_cons.1 h).2.1
  | cons v after => exact (List.isChain_append_cons_cons.1 h).2.1

/-- After its first token, a line has no flag. -/
theorem beginsLine_of_mem_tail {tokens line : List Token} (hline : line ∈ lines tokens) :
    ∀ t ∈ line.tail, t.beginsLine = false := by
  have hchain : line.IsChain fun _ next => (!next.beginsLine) = true :=
    List.isChain_of_mem_splitBy hline
  cases line with
  | nil => simp
  | cons first others =>
    intro t ht
    simpa using forall_of_isChain_cons hchain t ht

section

variable {pair : Delimiters} {source : List Char} {stream : Stream} {line : List Token}

/-- Cutting at the flags cuts the tokens into source lines. -/
theorem isSourceLine_of_mem_lines (h : ofSource pair source = .ok stream)
    (hline : line ∈ lines stream.tokens) : IsSourceLine source line := by
  have hflag := beginsLine_iff_of_ofSource h
  have hfirst : ∀ t ∈ stream.tokens.head?, t.beginsLine = true := by
    rw [(ofScan_eq_ok h).2]
    cases (Scan.read pair source).lexemes with
    | nil => simp [ofLexemes]
    | cons l ls =>
      rintro t ⟨⟩
      rfl
  cases line with
  | nil => exact absurd rfl (List.ne_nil_of_mem_splitBy hline)
  | cons first others =>
    refine ⟨first, others, rfl, ?_, ?_⟩
    · rw [← hflag first (mem_of_mem_lines hline List.mem_cons_self)]
      exact beginsLine_head?_of_mem_lines hfirst _ hline first rfl
    · intro t ht
      rw [← hflag t (mem_of_mem_lines hline (List.mem_cons_of_mem _ ht)),
        beginsLine_of_mem_tail hline t ht]
      exact Bool.false_ne_true

/-- Text that another token follows on its line has no newline. -/
theorem newline_not_mem_of_mem_lines (h : ofSource pair source = .ok stream)
    (hline : line ∈ lines stream.tokens) {before after : List Token} {t : Token}
    (hsplit : line = before ++ t :: after) :
    ∀ u ∈ before, u.kind = .text → '\n' ∉ u.whole.text := by
  have hflags := isChain_ofLexemes 0 true (Scan.read pair source).lexemes
  rw [← (ofScan_eq_ok h).2, ← flatten_lines stream.tokens] at hflags
  have hfollowed : line.IsChain fun u _ => u.whole.text.getLast? ≠ some '\n' := by
    refine List.IsChain.imp_of_mem_tail_imp ?_
      ( hflags.infix (List.infix_of_mem_flatten hline))
    intro u next _ hnext hflag hlast
    rw [beginsLine_of_mem_tail hline next hnext, hlast] at hflag
    cases hflag
  intro u hu hkind hnewline
  rw [hsplit] at hfollowed
  refine forall_of_isChain_append hfollowed u hu ?_
  refine getLast?_of_newline_mem h (mem_of_mem_lines hline ?_) hkind hnewline
  rw [hsplit]
  exact List.mem_append_left _ hu

end

end Token

end Mustache
