import Mathlib.Data.List.Nodup
import Mustache.Proofs.Brackets
import Mustache.Proofs.Concatenation
import Mustache.Proofs.Elision
import Mustache.Proofs.IndentedReading
import Mustache.Proofs.Shifting

/-!
# Parts of a source by themselves

Reading can stop and go on between any two lexemes: what stands before the cut is read
in the same way by itself, and what stands behind it is read in the same way under the
pair that is live at the cut.  So no tag and no marker reaches over a cut, and the
tokens between two tags are, at other places, the tokens of the text between them.

Main results:

- Theorem `Scan.exists_read_split`: a source is read in two parts, cut between lexemes.
- Theorem `Token.exists_ofSource_excerpt`: the tokens of an excerpt are those of the
  source, at other places.
- Theorem `Token.SettlesTo.exists_split`: a tag that is left after settling cuts the
  tokens before settling.
- Theorem `Token.SettlesTo.eq_of_keeps`: where no text is taken away and no inclusion
  gets an indent, settling changes nothing.
-/

namespace Mustache

/-! ## One step -/

/-- The first occurrence of a marker does not depend on what follows the marker. -/
theorem Text.FirstAt.of_append_right {marker before xs ys : List Char}
    (h : FirstAt marker (before ++ (marker ++ (xs ++ ys))) before (xs ++ ys)) :
    FirstAt marker (before ++ (marker ++ xs)) before xs := by
  refine ⟨rfl, ?_⟩
  intro b a hsplit
  apply h.first b (a ++ ys)
  have hlong := congrArg (· ++ ys) hsplit
  simpa using hlong

namespace Step

variable {pair live : Delimiters} {xs ys : List Char}

/-- A run of text is read whatever follows it later, as long as it is followed by the same
marker. -/
theorem textRun_of_append {m : Marker} {chars : List Char}
    (h : textRun m.chars (chars ++ (xs ++ ys)) = (chars, xs ++ ys))
    (hboundary : m.chars <+: xs ++ ys → xs = [] ∨ m.chars <+: xs) :
    textRun m.chars (chars ++ xs) = (chars, xs) := by
  induction chars with
  | nil =>
    cases xs with
    | nil => rfl
    | cons d ds =>
      have hrun : textRun m.chars (d :: (ds ++ ys)) = ([], d :: (ds ++ ys)) := h
      have hbegins : m.chars <+: d :: (ds ++ ys) := by
        by_contra hno
        rw [← List.isPrefixOf_iff_prefix] at hno
        have hne := textRun_ne_nil hno
        rw [hrun] at hne
        exact hne rfl
      rcases hboundary hbegins with hnil | ⟨rest, hrest⟩
      · cases hnil
      · rw [List.nil_append, ← hrest, textRun_left_append]
  | cons c chars ih =>
    rw [List.cons_append, textRun] at h ⊢
    by_cases hc : c = '\n'
    · rw [if_pos hc] at h ⊢
      obtain rfl : [] = chars := (List.cons.inj (Prod.mk.inj h).1).2
      rfl
    · rw [if_neg hc] at h ⊢
      by_cases hlong : m.chars.isPrefixOf (c :: (chars ++ (xs ++ ys))) = true
      · rw [if_pos hlong] at h
        cases (Prod.mk.inj h).1
      · have hshort : ¬ m.chars.isPrefixOf (c :: (chars ++ xs)) = true := by
          rw [List.isPrefixOf_iff_prefix] at hlong ⊢
          intro hbegins
          apply hlong (hbegins.trans ⟨ys, by simp⟩)
        rw [if_neg hlong] at h
        rw [if_neg hshort]
        obtain ⟨hchars, hrest⟩ := Prod.mk.inj h
        have hrun : textRun m.chars (chars ++ (xs ++ ys)) = (chars, xs ++ ys) :=
          Prod.ext (List.cons.inj hchars).2 hrest
        rw [ih hrun]

/-- A kind of tag is told by its mark and the character behind it. -/
theorem sigil_read_of_append {sigil : Sigil} (hne : xs ≠ [])
    (h : Sigil.read (sigil.mark ++ (xs ++ ys)) = (sigil, xs ++ ys)) :
    Sigil.read (sigil.mark ++ xs) = (sigil, xs) := by
  rw [Sigil.read_eq_iff] at h ⊢
  obtain ⟨c, cs, rfl⟩ := List.exists_cons_of_ne_nil hne
  cases h with
  | plain hno => exact .plain hno
  | _ => constructor

/-- A tag is read whatever follows it later. -/
theorem readTag_of_append {sigil : Sigil} {body : List Char}
    (h : readTag pair sigil (body ++ (sigil.terminator pair ++ (xs ++ ys))) =
      .lexeme (.tag pair sigil body) live (xs ++ ys)) :
    readTag pair sigil (body ++ (sigil.terminator pair ++ xs)) =
      .lexeme (.tag pair sigil body) live xs := by
  unfold readTag at h ⊢
  cases hfound : Text.breakOn (sigil.terminator pair)
      (body ++ (sigil.terminator pair ++ (xs ++ ys))) with
  | none =>
    rw [hfound] at h
    cases h
  | some found =>
    obtain ⟨body', rest⟩ := found
    rw [hfound] at h
    have hfirst := Text.breakOn_eq_some_iff.1 hfound
    by_cases hequals : sigil = .equals
    · simp only [if_pos hequals] at h ⊢
      cases hbody : Delimiters.ofBody? body' with
      | none =>
        rw [hbody] at h
        cases h
      | some next =>
        rw [hbody] at h
        cases h
        rw [Text.breakOn_eq_some_iff.2 hfirst.of_append_right]
        simp only [hbody]
    · simp only [if_neg hequals] at h ⊢
      cases h
      rw [Text.breakOn_eq_some_iff.2 hfirst.of_append_right]

/-- Where a left marker stands, it belongs to the lexeme that is read. -/
theorem left_prefix_of_read_eq_lexeme {cs rest : List Char} {l : Lexeme}
    (h : read pair cs = .lexeme l live rest) (hleft : pair.left.chars <+: cs) :
    pair.left.chars <+: l.chars := by
  rcases cases_of_read_eq_lexeme h with ⟨-, -, -, hno⟩ | ⟨sigil, body, rfl, -⟩
  · exact absurd hleft hno
  · exact List.prefix_append _ _

/-- A lexeme is read whatever follows it later, as long as text is followed by the same marker. -/
theorem read_of_append {l : Lexeme}
    (h : read pair (l.chars ++ (xs ++ ys)) = .lexeme l live (xs ++ ys))
    (hboundary : live = pair → pair.left.chars <+: xs ++ ys → xs = [] ∨ pair.left.chars <+: xs) :
    read pair (l.chars ++ xs) = .lexeme l live xs := by
  have hne := (append_of_read_eq_lexeme h).2
  rcases cases_of_read_eq_lexeme h with ⟨hl, hrest, rfl, hno⟩ | ⟨sigil, body, rfl, -⟩
  · obtain ⟨chars, rfl⟩ : ∃ chars, l = .text chars := ⟨_, hl⟩
    have hrun : textRun live.left.chars (chars ++ (xs ++ ys)) = (chars, xs ++ ys) :=
      Prod.ext (Lexeme.text.inj hl).symm hrest.symm
    have hshort : ¬ live.left.chars <+: chars ++ xs :=
      fun hbegins => hno (hbegins.trans ⟨ys, by simp [Lexeme.chars]⟩)
    have hrun' := textRun_of_append hrun (hboundary rfl)
    obtain ⟨c, cs, rfl⟩ := List.exists_cons_of_ne_nil hne
    rw [← List.isPrefixOf_iff_prefix] at hshort
    rw [Lexeme.chars, List.cons_append] at *
    rw [read, if_neg hshort, hrun']
  · have hlong : (Lexeme.tag pair sigil body).chars ++ (xs ++ ys) = pair.left.chars ++
        (sigil.mark ++ ((body ++ (sigil.terminator pair ++ xs)) ++ ys)) := by
      simp [Lexeme.chars]
    have hshort : (Lexeme.tag pair sigil body).chars ++ xs = pair.left.chars ++
        (sigil.mark ++ (body ++ (sigil.terminator pair ++ xs))) := by
      simp [Lexeme.chars]
    rw [hlong, read_left_append] at h
    obtain ⟨body', heq, -⟩ := cases_of_readTag_eq_lexeme h
    obtain ⟨hsigil, -⟩ := Lexeme.tag.inj heq |>.2
    have hinner := Sigil.mark_append_of_read
      (sigil.mark ++ ((body ++ (sigil.terminator pair ++ xs)) ++ ys))
    rw [← hsigil, List.append_cancel_left_eq] at hinner
    rw [← hsigil, hinner] at h
    have hread : Sigil.read (sigil.mark ++ ((body ++ (sigil.terminator pair ++ xs)) ++ ys)) =
        (sigil, (body ++ (sigil.terminator pair ++ xs)) ++ ys) := Prod.ext hsigil.symm hinner
    have hterminator : body ++ (sigil.terminator pair ++ xs) ≠ [] := by
      simp [(isSolid_terminator sigil pair).ne_nil]
    rw [hshort, read_left_append, sigil_read_of_append hterminator hread]
    exact readTag_of_append (by simpa using h)

end Step

/-! ## Reading in two parts -/

namespace Scan

variable {pair live : Delimiters}

/-- What is read begins with the lexeme of a step. -/
theorem exists_step_of_read_eq_cons {cs : List Char} {l : Lexeme} {ls : List Lexeme}
    {ending : Ending} (h : read pair cs = ⟨l :: ls, ending⟩) :
    ∃ next rest, Step.read pair cs = .lexeme l next rest ∧ read next rest = ⟨ls, ending⟩ := by
  cases hstep : Step.read pair cs with
  | ended ending' =>
    rw [read_of_ended hstep] at h
    cases h
  | lexeme l' next rest =>
    rw [read_of_lexeme hstep] at h
    cases h
    exact ⟨next, rest, rfl, rfl⟩

/-- A source is read in two parts, cut between any two lexemes. -/
theorem exists_read_split {cs : List Char} {xs ys : List Lexeme}
    (h : read pair cs = ⟨xs ++ ys, .finished live⟩) :
    ∃ middle, read pair (xs.flatMap Lexeme.chars) = ⟨xs, .finished middle⟩ ∧
      read middle (ys.flatMap Lexeme.chars) = ⟨ys, .finished live⟩ := by
  induction xs generalizing pair cs with
  | nil =>
    refine ⟨pair, read_of_ended rfl, ?_⟩
    have hcs := flatMap_chars_read (congrArg ending h)
    rw [h] at hcs
    simp only [List.nil_append] at hcs h
    rw [hcs, h]
  | cons l xs ih =>
    obtain ⟨next, rest, hstep, hrest⟩ := exists_step_of_read_eq_cons h
    obtain ⟨middle, hfirst, hsecond⟩ := ih hrest
    refine ⟨middle, ?_, hsecond⟩
    have hchars : rest = xs.flatMap Lexeme.chars ++ ys.flatMap Lexeme.chars := by
      have hall := flatMap_chars_read (congrArg ending hrest)
      rw [hrest] at hall
      simpa using hall.symm
    obtain ⟨rfl, -⟩ := Step.append_of_read_eq_lexeme hstep
    subst hchars
    -- A marker behind the lexeme belongs to the next one, which stands on the same side of the cut.
    have hboundary : next = pair →
        pair.left.chars <+: xs.flatMap Lexeme.chars ++ ys.flatMap Lexeme.chars →
          xs.flatMap Lexeme.chars = [] ∨ pair.left.chars <+: xs.flatMap Lexeme.chars := by
      rintro rfl hleft
      cases xs with
      | nil => exact .inl rfl
      | cons l' xs =>
        obtain ⟨_, _, hstep', -⟩ := exists_step_of_read_eq_cons hrest
        have hl' := Step.left_prefix_of_read_eq_lexeme hstep' hleft
        exact .inr (hl'.trans (List.prefix_append _ _))
    rw [List.flatMap_cons, read_of_lexeme (Step.read_of_append hstep hboundary), hfirst]
    rfl

end Scan

/-! ## Tokens -/

namespace Token

variable {pair : Delimiters} {source : List Char} {stream : Stream}

/-- Without a set delimiter tag, the pair stays as it is. -/
theorem ReadFrom.eq_of_forall_ne {live last : Delimiters} {ts : List Token}
    (h : ReadFrom live ts last) (hset : ∀ t ∈ ts, t.kind ≠ .setDelimiters) : last = live := by
  induction h with
  | nil => rfl
  | text _ _ _ _ ih => exact ih fun t ht => hset t (List.mem_cons_of_mem _ ht)
  | tag _ _ _ _ ih => exact ih fun t ht => hset t (List.mem_cons_of_mem _ ht)
  | setDelimiters kind _ _ _ _ => exact absurd kind (hset _ List.mem_cons_self)

/-- Where tokens are cut, so are the lexemes. -/
theorem exists_of_ofLexemes_eq_append {start : Nat} {beginsLine : Bool} {ls : List Lexeme}
    {xs ys : List Token} (h : ofLexemes start beginsLine ls = xs ++ ys) :
    ∃ first second flag, ls = first ++ second ∧ ofLexemes start beginsLine first = xs ∧
      ofLexemes (start + Text.byteLength (first.flatMap Lexeme.chars)) flag second = ys := by
  induction xs generalizing start beginsLine ls with
  | nil => exact ⟨[], ls, beginsLine, rfl, rfl, h⟩
  | cons x xs ih =>
    cases ls with
    | nil => cases h
    | cons l ls =>
      obtain ⟨rfl, hrest⟩ := List.cons.inj h
      obtain ⟨first, second, flag, rfl, hfirst, hsecond⟩ := ih hrest
      refine ⟨l :: first, second, flag, rfl, ?_, ?_⟩
      · exact congrArg (List.cons _) hfirst
      · simpa [Fragment.stop, Nat.add_assoc] using hsecond

/-- A lexeme that is placed later becomes a token that is later. -/
theorem outline_ofLexeme_shifted (k start : Nat) (beginsLine beginsLine' : Bool) (l : Lexeme) :
    outline (.shifted 0) ⟨kindOfLexeme (start + k) l, ⟨start + k, l.chars⟩, beginsLine⟩ =
      outline (.shifted k) ⟨kindOfLexeme start l, ⟨start, l.chars⟩, beginsLine'⟩ := by
  cases l with
  | text chars => rfl
  | tag pair sigil body =>
    have hname : ∀ n m : Nat, Fragment.trimmed ⟨start + k + n + m, body⟩ =
        (Fragment.trimmed ⟨start + n + m, body⟩).shift k := by
      intro n m
      simp only [Fragment.trimmed, Fragment.shift, Fragment.mk.injEq, and_true]
      omega
    rw [kindOfLexeme, kindOfLexeme, hname]
    cases sigil <;> rfl

/-- Lexemes that are placed later become tokens that are later. -/
theorem outline_ofLexemes_shifted (k start : Nat) (beginsLine beginsLine' : Bool)
    (ls : List Lexeme) :
    (ofLexemes (start + k) beginsLine ls).filterMap (fun t => t.outline (.shifted 0)) =
      (ofLexemes start beginsLine' ls).filterMap fun t => t.outline (.shifted k) := by
  induction ls generalizing start beginsLine beginsLine' with
  | nil => rfl
  | cons l ls ih =>
    have hstop : Fragment.stop ⟨start + k, l.chars⟩ = Fragment.stop ⟨start, l.chars⟩ + k := by
      simp only [Fragment.stop]
      omega
    rw [ofLexemes, ofLexemes, List.filterMap_cons, List.filterMap_cons,
      outline_ofLexeme_shifted k start beginsLine beginsLine', hstop, ih]

/-- The tokens of an excerpt, cut between tokens, are those of the source, at other places.  They
are read under the pair that is live where the excerpt begins. -/
theorem exists_ofSource_excerpt (h : ofSource pair source = .ok stream) {xs ys zs : List Token}
    (hsplit : stream.tokens = xs ++ (ys ++ zs)) :
    ∃ first last own, ofSource first (ys.flatMap fun t => t.whole.text) = .ok ⟨own, last⟩ ∧
      ReadFrom first ys last ∧ ReadFrom last zs stream.live ∧
      ys.filterMap (fun t => t.outline (.shifted 0)) = own.filterMap fun t =>
        t.outline (.shifted (Text.byteLength (xs.flatMap fun t => t.whole.text))) := by
  obtain ⟨hending, htokens⟩ := ofScan_eq_ok h
  obtain ⟨before, rest, flag, hlexemes, rfl, hrest⟩ :=
    exists_of_ofLexemes_eq_append (htokens.symm.trans hsplit)
  obtain ⟨middle, after, flag', rfl, rfl, rfl⟩ := exists_of_ofLexemes_eq_append hrest
  have hread : Scan.read pair source = ⟨before ++ (middle ++ after), .finished stream.live⟩ := by
    rw [← hlexemes, ← hending]
  obtain ⟨first, -, hbehind⟩ := Scan.exists_read_split hread
  obtain ⟨last, hmiddle, hafter⟩ := Scan.exists_read_split hbehind
  have hfirst := readFrom_ofLexemes (congrArg Scan.ending hmiddle)
  have hlast := readFrom_ofLexemes (congrArg Scan.ending hafter)
  rw [hmiddle] at hfirst
  rw [hafter] at hlast
  refine ⟨first, last, ofLexemes 0 true middle, ?_, hfirst _ _, hlast _ _, ?_⟩
  · rw [flatMap_text_ofLexemes, ofSource, hmiddle]
    rfl
  · rw [flatMap_text_ofLexemes]
    exact outline_ofLexemes_shifted _ 0 flag true middle

/-! ## The order of tokens -/

/-- The token is not empty and ends before the other one begins. -/
def Precedes (t u : Token) : Prop :=
  t.whole.start < t.whole.stop ∧ t.whole.stop ≤ u.whole.start

/-- A token begins where the text before it ends. -/
theorem start_eq_of_ofSource (h : ofSource pair source = .ok stream) {xs ys : List Token}
    {t : Token} (hsplit : stream.tokens = xs ++ t :: ys) :
    t.whole.start = Text.byteLength (xs.flatMap fun u => u.whole.text) := by
  obtain ⟨-, htokens⟩ := ofScan_eq_ok h
  obtain ⟨before, rest, flag, -, rfl, hrest⟩ :=
    exists_of_ofLexemes_eq_append (htokens.symm.trans hsplit)
  cases rest with
  | nil => cases hrest
  | cons l ls =>
    obtain ⟨rfl, -⟩ := List.cons.inj hrest
    simp [flatMap_text_ofLexemes]

/-- Tokens in place begin one after the other. -/
theorem pairwise_precedes_ofLexemes {ls : List Lexeme} (hne : ∀ l ∈ ls, l.chars ≠ [])
    (start : Nat) (beginsLine : Bool) :
    (∀ t ∈ ofLexemes start beginsLine ls, start ≤ t.whole.start) ∧
      (ofLexemes start beginsLine ls).Pairwise Precedes := by
  induction ls generalizing start beginsLine with
  | nil => simp [ofLexemes]
  | cons l ls ih =>
    obtain ⟨hstart, hpairwise⟩ := ih (fun l' hl' => hne l' (List.mem_cons_of_mem _ hl'))
      (Fragment.stop ⟨start, l.chars⟩) (l.chars.getLast? == some '\n')
    have hlong : start < Fragment.stop ⟨start, l.chars⟩ :=
      Nat.lt_add_of_pos_right (Text.byteLength_pos (hne l List.mem_cons_self))
    rw [ofLexemes]
    constructor
    · intro t ht
      rcases List.mem_cons.1 ht with rfl | ht
      · exact le_rfl
      · exact hlong.le.trans (hstart t ht)
    · exact List.pairwise_cons.2 ⟨fun t ht => ⟨hlong, hstart t ht⟩, hpairwise⟩

/-- The tokens of a source begin one after the other. -/
theorem pairwise_precedes_of_ofSource (h : ofSource pair source = .ok stream) :
    stream.tokens.Pairwise Precedes := by
  rw [(ofScan_eq_ok h).2]
  exact (pairwise_precedes_ofLexemes (Scan.chars_ne_nil_of_mem pair source) 0 true).2

/-- No token is there twice. -/
theorem nodup_of_pairwise_precedes {ts : List Token} (h : ts.Pairwise Precedes) : ts.Nodup := by
  refine h.imp ?_
  rintro t u ⟨hlong, hnext⟩ rfl
  omega

/-! ## Settling parts -/

/-- Tokens and what is left of them: text may be taken away, and inclusions may get indents. -/
inductive SettlesTo : List Token → List Token → Prop
  | nil : SettlesTo [] []
  | kept (t : Token) {ts us : List Token} (rest : SettlesTo ts us) : SettlesTo (t :: ts) (t :: us)
  | taken {t : Token} {ts us : List Token} (ht : t.kind = .text) (rest : SettlesTo ts us) :
      SettlesTo (t :: ts) us
  | indented {t : Token} {ts us : List Token} {name : Fragment} (indent : List Char)
      (ht : t.kind = .inclusion name []) (rest : SettlesTo ts us) :
      SettlesTo (t :: ts) ({ t with kind := .inclusion name indent } :: us)

namespace SettlesTo

variable {ts us ts' us' : List Token}

theorem refl : ∀ ts : List Token, SettlesTo ts ts
  | [] => .nil
  | t :: ts => .kept t (refl ts)

theorem append (h : SettlesTo ts us) (h' : SettlesTo ts' us') :
    SettlesTo (ts ++ ts') (us ++ us') := by
  induction h with
  | nil => exact h'
  | kept t _ ih => exact .kept t ih
  | taken ht _ ih => exact .taken ht ih
  | indented indent ht _ ih => exact .indented indent ht ih

/-- What is left of tokens in a row is left of each part. -/
theorem exists_append (h : SettlesTo (ts ++ ts') us) :
    ∃ vs vs', us = vs ++ vs' ∧ SettlesTo ts vs ∧ SettlesTo ts' vs' := by
  induction ts generalizing us with
  | nil => exact ⟨[], us, rfl, .nil, h⟩
  | cons t ts ih =>
    cases h with
    | kept _ rest =>
      obtain ⟨vs, vs', rfl, hvs, hvs'⟩ := ih rest
      exact ⟨t :: vs, vs', rfl, .kept t hvs, hvs'⟩
    | taken ht rest =>
      obtain ⟨vs, vs', rfl, hvs, hvs'⟩ := ih rest
      exact ⟨vs, vs', rfl, .taken ht hvs, hvs'⟩
    | indented indent ht rest =>
      obtain ⟨vs, vs', rfl, hvs, hvs'⟩ := ih rest
      exact ⟨_ :: vs, vs', rfl, .indented indent ht hvs, hvs'⟩

/-- What is left of text is text. -/
theorem forall_text (h : SettlesTo ts us) (hts : ∀ t ∈ ts, t.kind = .text) :
    ∀ u ∈ us, u.kind = .text := by
  induction h with
  | nil => simp
  | kept t _ ih =>
    obtain ⟨ht, hts⟩ := List.forall_mem_cons.1 hts
    exact List.forall_mem_cons.2 ⟨ht, ih hts⟩
  | taken _ _ ih => exact ih (List.forall_mem_cons.1 hts).2
  | indented _ ht _ _ =>
    rw [hts _ List.mem_cons_self] at ht
    cases ht

/-- What is left stands where it stood. -/
theorem exists_whole_eq (h : SettlesTo ts us) {u : Token} (hu : u ∈ us) :
    ∃ t ∈ ts, t.whole = u.whole := by
  induction h with
  | nil => cases hu
  | kept t _ ih =>
    rcases List.mem_cons.1 hu with rfl | hu
    · exact ⟨u, List.mem_cons_self, rfl⟩
    · obtain ⟨t', ht', heq⟩ := ih hu
      exact ⟨t', List.mem_cons_of_mem _ ht', heq⟩
  | taken _ _ ih =>
    obtain ⟨t', ht', heq⟩ := ih hu
    exact ⟨t', List.mem_cons_of_mem _ ht', heq⟩
  | indented _ _ _ ih =>
    rcases List.mem_cons.1 hu with rfl | hu
    · exact ⟨_, List.mem_cons_self, rfl⟩
    · obtain ⟨t', ht', heq⟩ := ih hu
      exact ⟨t', List.mem_cons_of_mem _ ht', heq⟩

/-- No bracket is taken away. -/
theorem filterMap_bracket? (h : SettlesTo ts us) :
    us.filterMap bracket? = ts.filterMap bracket? := by
  induction h with
  | nil => rfl
  | kept t _ ih => rw [List.filterMap_cons, List.filterMap_cons, ih]
  | taken ht _ ih => simp [bracket?, ht, ih]
  | @indented t _ _ name indent ht _ ih =>
    have hbefore : t.bracket? = none := by simp [bracket?, ht]
    have hafter : bracket? { t with kind := .inclusion name indent } = none := rfl
    rw [List.filterMap_cons_none hbefore, List.filterMap_cons_none hafter, ih]

/-- A tag that is left, and that gets no indent, cuts what it is left of. -/
theorem exists_split {xs ys : List Token} {u : Token} (h : SettlesTo ts (xs ++ u :: ys))
    (hu : ∀ name indent, u.kind ≠ .inclusion name indent) :
    ∃ xs' ys', ts = xs' ++ u :: ys' ∧ SettlesTo xs' xs ∧ SettlesTo ys' ys := by
  generalize hus : xs ++ u :: ys = us at h
  induction h generalizing xs with
  | nil => simp at hus
  | @kept t ts us rest ih =>
    cases xs with
    | nil =>
      obtain ⟨rfl, rfl⟩ := List.cons.inj hus
      exact ⟨[], ts, rfl, .nil, rest⟩
    | cons x xs =>
      obtain ⟨rfl, htail⟩ := List.cons.inj hus
      obtain ⟨xs', ys', rfl, hxs, hys⟩ := ih htail
      exact ⟨x :: xs', ys', rfl, .kept x hxs, hys⟩
  | @taken t ts us ht rest ih =>
    obtain ⟨xs', ys', rfl, hxs, hys⟩ := ih hus
    exact ⟨t :: xs', ys', rfl, .taken ht hxs, hys⟩
  | @indented t ts us name indent ht rest ih =>
    cases xs with
    | nil =>
      obtain ⟨rfl, -⟩ := List.cons.inj hus
      exact absurd rfl (hu name indent)
    | cons x xs =>
      obtain ⟨rfl, htail⟩ := List.cons.inj hus
      obtain ⟨xs', ys', rfl, hxs, hys⟩ := ih htail
      exact ⟨t :: xs', ys', rfl, .indented indent ht hxs, hys⟩

/-- If every text is kept and no inclusion gets an indent, everything is left as it is. -/
theorem eq_of_keeps (h : SettlesTo ts us) (hnodup : ts.Pairwise Precedes)
    (htext : ∀ t ∈ ts, t.kind = .text → t ∈ us) (hindent : Unindented us) : us = ts := by
  induction h with
  | nil => rfl
  | @kept t ts us rest ih =>
    obtain ⟨hfirst, hnodup⟩ := List.pairwise_cons.1 hnodup
    rw [ih hnodup]
    · intro u hu hkind
      rcases List.mem_cons.1 (htext u (List.mem_cons_of_mem _ hu) hkind) with rfl | hmem
      · exact absurd (hfirst u hu) (by simp [Precedes])
      · exact hmem
    · exact fun u hu => hindent u (List.mem_cons_of_mem _ hu)
  | @taken t ts us ht rest ih =>
    obtain ⟨u, hu, hwhole⟩ := rest.exists_whole_eq (htext t List.mem_cons_self ht)
    obtain ⟨hlong, hnext⟩ := (List.pairwise_cons.1 hnodup).1 u hu
    rw [hwhole] at hnext
    omega
  | @indented t ts us name indent ht rest ih =>
    obtain ⟨hfirst, hnodup⟩ := List.pairwise_cons.1 hnodup
    obtain rfl : indent = [] := hindent _ List.mem_cons_self name indent rfl
    rw [ih hnodup]
    · rw [← ht]
    · intro u hu hkind
      rcases List.mem_cons.1 (htext u (List.mem_cons_of_mem _ hu) hkind) with rfl | hmem
      · cases hkind
      · exact hmem
    · exact fun u hu => hindent u (List.mem_cons_of_mem _ hu)

end SettlesTo

/-- Taking text away and indenting inclusions is settling. -/
theorem settlesTo_dropText {line : List Token} (hindents : Unindented line) (indent : List Char) :
    SettlesTo line (dropText indent line) := by
  induction line generalizing indent with
  | nil => exact .nil
  | cons t ts ih =>
    have hts : Unindented ts := fun u hu => hindents u (List.mem_cons_of_mem _ hu)
    rw [dropText]
    split
    · rename_i hkind
      exact .taken hkind (ih hts _)
    · rename_i name old hkind
      obtain rfl : old = [] := hindents t List.mem_cons_self name old hkind
      exact .indented indent hkind (ih hts _)
    · exact .kept t (ih hts _)

/-- The tokens of a source settle line by line. -/
theorem settlesTo_settle {ts : List Token} (hindents : Unindented ts) :
    SettlesTo ts (settle ts) := by
  have hlines : ∀ ls : List (List Token), (∀ line ∈ ls, Unindented line) →
      SettlesTo ls.flatten (ls.flatMap settleLine) := by
    intro ls
    induction ls with
    | nil => exact fun _ => .nil
    | cons line ls ih =>
      intro hls
      have hrest := ih fun line' hline' => hls line' (List.mem_cons_of_mem _ hline')
      refine SettlesTo.append ?_ hrest
      rw [settleLine]
      split
      · exact settlesTo_dropText (hls line List.mem_cons_self) []
      · exact .refl line
  have hsettled := hlines (lines ts) fun line hline t ht =>
    hindents t (mem_of_mem_lines hline ht)
  rw [flatten_lines] at hsettled
  exact hsettled

/-- No text is left of a standalone line. -/
theorem not_standalone_of_mem_settle {ts line : List Token} (hnodup : ts.Nodup)
    (hline : line ∈ lines ts) {t : Token} (ht : t ∈ line) (hkind : t.kind = .text)
    (hmem : t ∈ settle ts) : ¬ Standalone line := by
  obtain ⟨line', hline', hmem⟩ := List.mem_flatMap.1 hmem
  rw [settleLine] at hmem
  split at hmem
  · exact absurd hkind (kind_ne_text_of_mem_dropText hmem)
  · rename_i hno
    rw [isStandaloneLine_iff] at hno
    rw [← flatten_lines ts, List.nodup_flatten] at hnodup
    have hsame : line = line' := by
      by_contra hne
      have : Std.Symm (List.Disjoint (α := Token)) := ⟨fun _ _ => List.disjoint_symm⟩
      exact hnodup.2.forall hline hline' hne ht hmem
    rwa [hsame]

/-- If all text of a source is kept, settling changes nothing: an indent is text that was taken
away. -/
theorem settle_eq_self_of_keeps (h : ofSource pair source = .ok stream)
    (htext : ∀ t ∈ stream.tokens, t.kind = .text → t ∈ settle stream.tokens) :
    settle stream.tokens = stream.tokens := by
  have hunindented := unindented_of_ofSource h
  have hpairwise := pairwise_precedes_of_ofSource h
  apply (settlesTo_settle hunindented).eq_of_keeps hpairwise htext
  intro u hu name indent hkind
  obtain ⟨line, hline, hmem⟩ := List.mem_flatMap.1 hu
  rw [settleLine_eq fun t ht => hunindented t (mem_of_mem_lines hline ht)] at hmem
  obtain ⟨p, -, hsettled⟩ := List.mem_filterMap.1 hmem
  rw [eq_indent_of_settled hsettled hkind]
  split
  · rename_i hstandalone
    apply List.eq_nil_iff_forall_not_mem.2
    intro c hc
    obtain ⟨t, ht, hkind, -⟩ := mem_textAmong hc
    have htline := List.mem_of_mem_take ht
    have hkept := htext t (mem_of_mem_lines hline htline) hkind
    exact not_standalone_of_mem_settle (nodup_of_pairwise_precedes hpairwise) hline htline hkind
      hkept hstandalone
  · rfl

end Token

end Mustache
