import Mathlib.Data.List.SplitBy
import Mustache.Node

/-!
# Sections as brackets

Whether sections nest does not depend on what stands in them.  Their tags are
brackets with a name, and a sequence of brackets is balanced if it can be put
together from blocks of an opening and a closing bracket of the same name.

Main results:

- Theorem `pending_iff`: the brackets up to a place leave open what a stack
  holds after them.
- Theorem `Bracket.check_eq_ok_iff`: nesting succeeds exactly for balanced brackets.
- Theorem `Bracket.check_eq_error_iff`: otherwise it fails at the first bracket out
  of place, or at the last section that is left open.
- Theorem `Node.ofTokens_check`: tokens become a tree exactly if their brackets nest.
-/

namespace Mustache

/-! ## Balanced brackets -/

/-- A tag of a section with the name that it holds. -/
structure SectionTag where
  name : List Char
  whole : Fragment

/-- A tag that opens or closes a section. -/
inductive Bracket where
  | opening (t : SectionTag)
  | closing (t : SectionTag)

/-- Every closing bracket has the name of the innermost bracket that is open, and in the end none
is open. -/
inductive Balanced : List Bracket → Prop
  | nil : Balanced []
  | block {o c : SectionTag} {body rest : List Bracket} (name : o.name = c.name)
      (hbody : Balanced body) (hrest : Balanced rest) :
      Balanced (.opening o :: (body ++ .closing c :: rest))

/-- Brackets without one that is out of place, and those of them that are still open, the
innermost one first: only balanced brackets follow on it. -/
inductive Pending : List Bracket → List SectionTag → Prop
  | balanced {xs : List Bracket} (h : Balanced xs) : Pending xs []
  | opened {xs ys : List Bracket} {o : SectionTag} {stack : List SectionTag}
      (h : Pending xs stack) (hys : Balanced ys) : Pending (xs ++ .opening o :: ys) (o :: stack)

/-- What is wrong with brackets that are not balanced. -/
inductive NestingFlaw (xs : List Bracket) : Flaw → Prop
  | unmatched {before after : List Bracket} {c : SectionTag}
      (hxs : xs = before ++ .closing c :: after) (hbefore : Pending before []) :
      NestingFlaw xs ⟨.unmatchedClose, c.whole.span⟩
  | mismatched {before after : List Bracket} {o c : SectionTag} {stack : List SectionTag}
      (hxs : xs = before ++ .closing c :: after) (hbefore : Pending before (o :: stack))
      (name : o.name ≠ c.name) :
      NestingFlaw xs ⟨.mismatchedClose (String.ofList o.name), c.whole.span⟩
  | unclosed {o : SectionTag} {stack : List SectionTag} (hxs : Pending xs (o :: stack)) :
      NestingFlaw xs ⟨.unclosedSection (String.ofList o.name), o.whole.span⟩

/-- Balanced brackets in a row are balanced. -/
theorem Balanced.append {xs ys : List Bracket} (hx : Balanced xs) (hy : Balanced ys) :
    Balanced (xs ++ ys) := by
  induction hx with
  | nil => exact hy
  | block name hbody hrest _ ih =>
    rw [List.cons_append, List.append_assoc]
    exact .block name hbody ih

namespace Pending

variable {xs ys : List Bracket} {stack : List SectionTag} {o c : SectionTag}

/-- Balanced brackets open and close nothing. -/
theorem append_balanced (h : Pending xs stack) (hys : Balanced ys) : Pending (xs ++ ys) stack := by
  cases h with
  | balanced h => exact .balanced (h.append hys)
  | opened h hzs =>
    rw [List.append_assoc]
    exact .opened h (hzs.append hys)

/-- An opening bracket is open after itself. -/
theorem append_opening (h : Pending xs stack) (o : SectionTag) :
    Pending (xs ++ [.opening o]) (o :: stack) :=
  .opened h .nil

/-- A closing bracket of the right name closes the innermost bracket. -/
theorem append_closing (h : Pending xs (o :: stack)) (name : o.name = c.name) :
    Pending (xs ++ [.closing c]) stack := by
  cases h with
  | opened h hys =>
    rw [List.append_assoc]
    exact h.append_balanced (.block name hys .nil)

/-- If nothing is open, the brackets are balanced. -/
theorem balanced_iff : Pending xs [] ↔ Balanced xs := by
  refine ⟨?_, .balanced⟩
  intro h
  cases h with
  | balanced h => exact h

end Pending

/-! ## A stack of open sections -/

namespace Bracket

/-- Takes up a bracket while some sections are open, the innermost one first. -/
def step (stack : List SectionTag) : Bracket → Except Flaw (List SectionTag)
  | opening o => .ok (o :: stack)
  | closing c =>
    match stack with
    | [] => .error ⟨.unmatchedClose, c.whole.span⟩
    | o :: outer =>
      if o.name = c.name then
        .ok outer
      else
        .error ⟨.mismatchedClose (String.ofList o.name), c.whole.span⟩

/-- Takes up brackets one after the other. -/
def run (stack : List SectionTag) : List Bracket → Except Flaw (List SectionTag)
  | [] => .ok stack
  | b :: bs => (b.step stack).bind fun next => run next bs

/-- In the end, no section may be open. -/
def finish : List SectionTag → Except Flaw Unit
  | [] => .ok ()
  | o :: _ => .error ⟨.unclosedSection (String.ofList o.name), o.whole.span⟩

/-- Checks that brackets are balanced. -/
def check (bs : List Bracket) : Except Flaw Unit :=
  (run [] bs).bind finish

/-- Brackets in a row are taken up one after the other. -/
theorem run_append (stack : List SectionTag) (xs ys : List Bracket) :
    run stack (xs ++ ys) = (run stack xs).bind fun next => run next ys := by
  induction xs generalizing stack with
  | nil => rfl
  | cons b bs ih =>
    rw [List.cons_append, run, run]
    cases b.step stack with
    | error flaw => rfl
    | ok next => exact ih next

/-- Balanced brackets leave the open sections as they are. -/
theorem run_of_balanced {xs : List Bracket} (h : Balanced xs) (stack : List SectionTag) :
    run stack xs = .ok stack := by
  induction h generalizing stack with
  | nil => rfl
  | @block o c body rest name _ _ ihbody ihrest =>
    show run (o :: stack) (body ++ .closing c :: rest) = .ok stack
    rw [run_append, ihbody]
    show ((closing c).step (o :: stack)).bind (fun next => run next rest) = .ok stack
    rw [step, if_pos name]
    exact ihrest stack

/-- A bracket that fits leaves open what the stack holds after it. -/
theorem pending_step {xs : List Bracket} {stack next : List SectionTag} {b : Bracket}
    (h : Pending xs stack) (hstep : b.step stack = .ok next) : Pending (xs ++ [b]) next := by
  cases b with
  | opening o =>
    cases hstep
    exact h.append_opening o
  | closing c =>
    cases stack with
    | nil => cases hstep
    | cons o outer =>
      rw [step] at hstep
      split at hstep
      · rename_i name
        cases hstep
        exact h.append_closing name
      · cases hstep

theorem pending_run {xs ys : List Bracket} {stack last : List SectionTag}
    (h : Pending xs stack) (hrun : run stack ys = .ok last) : Pending (xs ++ ys) last := by
  induction ys generalizing xs stack with
  | nil =>
    cases hrun
    rw [List.append_nil]
    exact h
  | cons b bs ih =>
    rw [run] at hrun
    cases hstep : b.step stack with
    | error flaw =>
      rw [hstep] at hrun
      cases hrun
    | ok next =>
      rw [hstep] at hrun
      have hrest := ih (pending_step h hstep) hrun
      rwa [List.append_assoc] at hrest

end Bracket

/-- The brackets up to a place leave open what a stack holds after them. -/
theorem pending_iff {xs : List Bracket} {stack : List SectionTag} :
    Pending xs stack ↔ Bracket.run [] xs = .ok stack := by
  constructor
  · intro h
    induction h with
    | balanced h => exact Bracket.run_of_balanced h []
    | @opened xs ys o stack _ hys ih =>
      rw [Bracket.run_append, ih]
      exact Bracket.run_of_balanced hys (o :: stack)
  · exact Bracket.pending_run (.balanced .nil)

namespace Bracket

/-- Where taking up brackets fails, one of them does not fit, and all before it do. -/
theorem exists_of_run_eq_error {stack : List SectionTag} {xs : List Bracket} {flaw : Flaw}
    (h : run stack xs = .error flaw) :
    ∃ before b after next, xs = before ++ b :: after ∧ run stack before = .ok next ∧
      b.step next = .error flaw := by
  induction xs generalizing stack with
  | nil => cases h
  | cons b bs ih =>
    rw [run] at h
    cases hstep : b.step stack with
    | error flaw' =>
      rw [hstep] at h
      cases h
      exact ⟨[], b, bs, stack, rfl, rfl, hstep⟩
    | ok next =>
      rw [hstep] at h
      obtain ⟨before, b', after, last, rfl, hbefore, hlast⟩ := ih h
      refine ⟨b :: before, b', after, last, rfl, ?_, hlast⟩
      rw [run, hstep]
      exact hbefore

/-- A bracket that does not fit is the end of it. -/
theorem run_eq_error {before after : List Bracket} {b : Bracket} {stack next : List SectionTag}
    {flaw : Flaw} (hbefore : run stack before = .ok next) (hstep : b.step next = .error flaw) :
    run stack (before ++ b :: after) = .error flaw := by
  rw [run_append, hbefore]
  show (b.step next).bind (fun last => run last after) = .error flaw
  rw [hstep]
  rfl

/-- Nesting succeeds exactly for balanced brackets. -/
theorem check_eq_ok_iff {xs : List Bracket} : check xs = .ok () ↔ Balanced xs := by
  rw [← Pending.balanced_iff, pending_iff, check]
  cases run [] xs with
  | error flaw => exact ⟨nofun, nofun⟩
  | ok stack =>
    cases stack with
    | nil => exact ⟨fun _ => rfl, fun _ => rfl⟩
    | cons o outer => exact ⟨nofun, nofun⟩

/-- Nesting fails at the first bracket that is out of place, or at the last one left open. -/
theorem check_eq_error_iff {xs : List Bracket} {flaw : Flaw} :
    check xs = .error flaw ↔ NestingFlaw xs flaw := by
  constructor
  · intro h
    rw [check] at h
    cases hrun : run [] xs with
    | error flaw' =>
      rw [hrun] at h
      cases h
      obtain ⟨before, b, after, next, hxs, hbefore, hstep⟩ := exists_of_run_eq_error hrun
      rw [← pending_iff] at hbefore
      cases b with
      | opening o => cases hstep
      | closing c =>
        cases next with
        | nil =>
          cases hstep
          exact .unmatched hxs hbefore
        | cons o outer =>
          rw [step] at hstep
          split at hstep
          · cases hstep
          · rename_i name
            cases hstep
            exact .mismatched hxs hbefore name
    | ok stack =>
      rw [hrun] at h
      cases stack with
      | nil => cases h
      | cons o outer =>
        cases h
        exact .unclosed (pending_iff.2 hrun)
  · intro h
    rw [check]
    cases h with
    | unmatched hxs hbefore =>
      rw [hxs, run_eq_error (pending_iff.1 hbefore) rfl]
      rfl
    | @mismatched before after o c stack hxs hbefore name =>
      have hstep : (closing c).step (o :: stack) =
          .error ⟨.mismatchedClose (String.ofList o.name), c.whole.span⟩ := if_neg name
      rw [hxs, run_eq_error (pending_iff.1 hbefore) hstep]
      rfl
    | unclosed hxs =>
      rw [pending_iff.1 hxs]
      rfl

end Bracket

/-! ## Tokens -/

namespace Token

/-- The bracket that a token is, if it opens or closes a section. -/
def bracket? (t : Token) : Option Bracket :=
  match t.kind with
  | .sectionOpen _ name => some (.opening ⟨name.text, t.whole⟩)
  | .sectionClose name => some (.closing ⟨name.text, t.whole⟩)
  | _ => none

/-- Dropping text and indenting inclusions changes no bracket. -/
theorem filterMap_bracket?_dropText (indent : List Char) (line : List Token) :
    (dropText indent line).filterMap bracket? = line.filterMap bracket? := by
  induction line generalizing indent with
  | nil => rfl
  | cons t ts ih =>
    rw [dropText]
    split
    · rename_i hkind
      rw [ih, List.filterMap_cons_none (by rw [bracket?, hkind])]
    · rename_i name old hkind
      rw [List.filterMap_cons_none rfl, ih, List.filterMap_cons_none (by rw [bracket?, hkind])]
    · rw [List.filterMap_cons, List.filterMap_cons, ih]

theorem filterMap_bracket?_settleLine (line : List Token) :
    (settleLine line).filterMap bracket? = line.filterMap bracket? := by
  rw [settleLine]
  split
  · exact filterMap_bracket?_dropText [] line
  · rfl

/-- Settling lines changes no bracket. -/
theorem filterMap_bracket?_settle (tokens : List Token) :
    (settle tokens).filterMap bracket? = tokens.filterMap bracket? := by
  have hlines : ∀ ls : List (List Token),
      (ls.flatMap settleLine).filterMap bracket? = ls.flatten.filterMap bracket? := by
    intro ls
    induction ls with
    | nil => rfl
    | cons l ls ih =>
      rw [List.flatMap_cons, List.flatten_cons, List.filterMap_append, List.filterMap_append, ih,
        filterMap_bracket?_settleLine]
  rw [settle, hlines, lines, List.flatten_splitBy]

end Token

/-! ## The tree -/

/-- The tag of a section that is open. -/
def OpenSection.tag (s : OpenSection) : SectionTag :=
  ⟨s.name.text, s.opening⟩

namespace Nesting

/-- The tags of the open sections, the innermost one first. -/
def stack (n : Nesting) : List SectionTag :=
  n.opened.map OpenSection.tag

/-- A close tag is taken up like a closing bracket. -/
theorem close_stack (n : Nesting) (name closing : Fragment) :
    (n.close name closing).map stack =
      (Bracket.closing ⟨name.text, closing⟩).step n.stack := by
  unfold close stack
  cases n.opened with
  | nil => rfl
  | cons s outer =>
    show (if s.name.text = name.text then _ else _ : Except Flaw Nesting).map _ =
      if s.name.text = name.text then _ else _
    split <;> rfl

/-- A token is taken up like its bracket, or changes nothing if it has none. -/
theorem step_stack (n : Nesting) (t : Token) :
    (n.step t).map stack =
      match t.bracket? with
      | none => .ok n.stack
      | some b => b.step n.stack := by
  unfold step Token.bracket?
  cases t.kind with
  | sectionClose name => exact n.close_stack name t.whole
  | _ => rfl

/-- Tokens are taken up like their brackets. -/
theorem run_stack (n : Nesting) (ts : List Token) :
    (n.run ts).map stack = Bracket.run n.stack (ts.filterMap Token.bracket?) := by
  induction ts generalizing n with
  | nil => rfl
  | cons t ts ih =>
    have hstep := n.step_stack t
    rw [run]
    cases hbracket : t.bracket? with
    | none =>
      rw [hbracket] at hstep
      rw [List.filterMap_cons_none hbracket]
      cases hnext : n.step t with
      | error flaw =>
        rw [hnext] at hstep
        cases hstep
      | ok next =>
        rw [hnext] at hstep
        have hstack : next.stack = n.stack := Except.ok.inj hstep
        rw [← hstack]
        exact ih next
    | some b =>
      rw [hbracket] at hstep
      dsimp only at hstep
      rw [List.filterMap_cons_some hbracket, Bracket.run, ← hstep]
      cases n.step t with
      | error flaw => rfl
      | ok next => exact ih next

/-- A tree is finished like a stack. -/
theorem finish_stack (n : Nesting) : n.finish.map (fun _ => ()) = Bracket.finish n.stack := by
  unfold finish stack
  cases n.opened <;> rfl

end Nesting

/-- Tokens become a tree exactly if their brackets nest, and fail with the same flaw. -/
theorem Node.ofTokens_check (tokens : List Token) :
    (ofTokens tokens).map (fun _ => ()) = Bracket.check (tokens.filterMap Token.bracket?) := by
  have hrun := Nesting.empty.run_stack tokens
  rw [ofTokens, Bracket.check]
  rw [show Nesting.empty.stack = [] from rfl] at hrun
  rw [← hrun]
  cases Nesting.empty.run tokens with
  | error flaw => rfl
  | ok last => exact last.finish_stack

end Mustache
