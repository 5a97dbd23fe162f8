import Mustache.Proofs.Congruence
import Mustache.Proofs.Outline
import Mustache.Proofs.Placement

/-!
# Shifted programs

A text that stands inside a source has the same fragments as by itself, only that
they begin later by the offset at which the text stands.  Compiling shifted nodes
gives a shifted program, and a shifted program does what the program does.  The only
difference is the place of an error about a value without a text.

Main results:

- Theorem `Fragment.between_append`: cutting a fragment out of the source around a text.
- Theorem `Instr.ofNodes_shifted`: shifted nodes have a shifted program.
- Theorem `Render.moved_runAll`: a shifted program does what the program does.
-/

namespace Mustache

/-! ## Shifted fragments -/

/-- The stretch that begins and ends later by an offset. -/
def Span.shift (k : Nat) (s : Span) : Span :=
  ⟨s.start + k, s.stop + k⟩

namespace Fragment

variable (k : Nat)

/-- The fragment that begins later by an offset. -/
def shift (f : Fragment) : Fragment :=
  ⟨f.start + k, f.text⟩

@[simp]
theorem text_shift (f : Fragment) : (f.shift k).text = f.text :=
  rfl

@[simp]
theorem start_shift (f : Fragment) : (f.shift k).start = f.start + k :=
  rfl

@[simp]
theorem stop_shift (f : Fragment) : (f.shift k).stop = f.stop + k := by
  simp only [stop, start_shift, text_shift]
  omega

@[simp]
theorem span_shift (f : Fragment) : (f.shift k).span = f.span.shift k := by
  simp [span, Span.shift]

@[simp]
theorem shift_append (f g : Fragment) : (f.append g).shift k = (f.shift k).append (g.shift k) :=
  rfl

/-- The pieces of a text that begins later begin later. -/
theorem split_shift (separator : Char) (start : Nat) (cs : List Char) :
    split separator (start + k) cs = (split separator start cs).map (shift k) := by
  induction cs generalizing start with
  | nil => rfl
  | cons c cs ih =>
    rw [split, split, show start + k + c.utf8Size = start + c.utf8Size + k by omega, ih]
    by_cases hc : c = separator
    · simp [hc, shift]
    · rw [if_neg hc, if_neg hc]
      cases split separator (start + c.utf8Size) cs with
      | nil => rfl
      | cons f fs => rfl

end Fragment

/-! ## Slices of a text inside a source -/

namespace Text

/-- Cutting off more than the text in front cuts into the text behind it. -/
theorem dropBytes_byteLength_add (pre cs : List Char) (n : Nat) :
    dropBytes (byteLength pre + n) (pre ++ cs) = dropBytes n cs := by
  induction pre with
  | nil => simp
  | cons c pre ih =>
    obtain ⟨j, hj⟩ : ∃ j, byteLength (c :: pre) + n = j + 1 :=
      ⟨byteLength (c :: pre) + n - 1, by have := c.utf8Size_pos; simp only [byteLength_cons]; omega⟩
    rw [hj, List.cons_append, dropBytes, ← hj, byteLength_cons,
      show c.utf8Size + byteLength pre + n - c.utf8Size = byteLength pre + n by omega, ih]

/-- As long as a text goes, keeping its beginning does not ask for what follows it. -/
theorem takeBytes_append_of_le {n : Nat} {cs : List Char} (h : n ≤ byteLength cs)
    (post : List Char) : takeBytes n (cs ++ post) = takeBytes n cs := by
  induction cs generalizing n with
  | nil =>
    obtain rfl : n = 0 := by simpa using h
    simp
  | cons c cs ih =>
    cases n with
    | zero => simp
    | succ n =>
      rw [List.cons_append, takeBytes, takeBytes, ih]
      rw [byteLength_cons] at h
      omega

/-- A slice of a text is found in the source around it at the same distance. -/
theorem slice_shift {text before rest : List Char} (htext : text = before ++ rest)
    (pre post : List Char) {stop : Nat} (hstop : stop ≤ byteLength text) :
    slice (byteLength before + byteLength pre) (stop + byteLength pre) (pre ++ (text ++ post)) =
      slice (byteLength before) stop text := by
  have hlength : stop - byteLength before ≤ byteLength rest := by
    rw [htext, byteLength_append] at hstop
    omega
  rw [slice, slice, Nat.add_sub_add_right, Nat.add_comm (byteLength before),
    dropBytes_byteLength_add, htext, List.append_assoc, dropBytes_append, dropBytes_append,
    takeBytes_append_of_le hlength]

end Text

/-- What is cut out of a text between two of its fragments is cut out of the source around it. -/
theorem Fragment.between_append {text : List Char} {f g : Fragment} (hf : f.StandsIn text)
    (hg : g.StandsIn text) (pre post : List Char) :
    between (pre ++ (text ++ post)) (f.shift (Text.byteLength pre)).stop
        (g.shift (Text.byteLength pre)).start =
      (between text f.stop g.start).shift (Text.byteLength pre) := by
  obtain ⟨before, after, htext, hstart⟩ := hf
  obtain ⟨before', after', htext', hstart'⟩ := hg
  have hstop : f.stop = Text.byteLength (before ++ f.text) := by
    simp [stop, hstart]
  have hle : g.start ≤ Text.byteLength text := by
    rw [hstart', htext']
    simp
  rw [← List.append_assoc] at htext
  rw [between, between, stop_shift, start_shift, hstop, Text.slice_shift htext pre post hle]
  rfl

/-! ## Shifted instructions -/

/-- The name that begins later by an offset. -/
def Reference.shift (k : Nat) (r : Reference) : Reference :=
  ⟨r.name.shift k, r.path.map (Fragment.shift k)⟩

theorem Reference.ofName_shift (k : Nat) (name : Fragment) :
    ofName (name.shift k) = (ofName name).shift k := by
  unfold ofName shift
  simp only [Fragment.text_shift, Fragment.start_shift, Fragment.split_shift]
  split <;> rfl

/-- A name stands for the same value wherever it stands. -/
@[simp]
theorem Context.resolve_shift (ctx : Context) (k : Nat) (r : Reference) :
    ctx.resolve (r.shift k) = ctx.resolve r := by
  have hsegments : (r.shift k).segments = r.segments := by
    simp [Reference.segments, Reference.shift, Fragment.toString, Function.comp_def]
  rw [resolve, hsegments, resolve]

namespace Instr

mutual

/-- The instruction with all its fragments later by an offset. -/
def shift (k : Nat) : Instr → Instr
  | .text whole => .text (whole.shift k)
  | .interpolation escaping target => .interpolation escaping (target.shift k)
  | .block polarity target raw body =>
    .block polarity (target.shift k) (raw.shift k) (shiftAll k body)
  | .inclusion name indent => .inclusion name indent

/-- The instructions with all their fragments later by an offset. -/
def shiftAll (k : Nat) : List Instr → List Instr
  | [] => []
  | i :: is => shift k i :: shiftAll k is

end

/-- Instructions are shifted one by one. -/
theorem shiftAll_eq_map (k : Nat) (is : List Instr) : shiftAll k is = is.map (shift k) := by
  induction is with
  | nil => rfl
  | cons i is ih => rw [shiftAll, ih, List.map_cons]

/-- Text touches the following text wherever both stand. -/
theorem shiftAll_cons (k : Nat) (i : Instr) (is : List Instr) :
    shiftAll k (cons i is) = cons (shift k i) (shiftAll k is) := by
  cases i with
  | text f =>
    cases is with
    | nil => rfl
    | cons j is =>
      cases j with
      | text g =>
        by_cases htouch : f.stop = g.start <;> simp [cons, shiftAll, shift, htouch]
      | _ => rfl
  | _ => rfl

end Instr

/-- All parts of a template, later by an offset; flags of lines are left out. -/
def Outline.shifted (k : Nat) : Outline where
  text f := some (f.shift k)
  name f := f.shift k
  tag f := f.shift k
  indent i := i
  beginsLine _ := false
  name_text_iff _ _ := Iff.rfl

namespace Instr

variable {text : List Char} (pre post : List Char)

mutual

/-- A shifted node has a shifted instruction. -/
theorem ofNode_shifted : ∀ n n' : Node, (∀ f ∈ n.fragments, f.StandsIn text) →
    n.outline (.shifted (Text.byteLength pre)) = some n' →
      ofNode (pre ++ (text ++ post)) n' = (ofNode text n).shift (Text.byteLength pre)
  | .text whole, _, _, h => by
    cases h
    rfl
  | .interpolation escaping name whole, _, _, h => by
    cases h
    rw [ofNode, ofNode, shift]
    exact congrArg (Instr.interpolation escaping) (Reference.ofName_shift _ name)
  | .block polarity name opening closing body, _, hstands, h => by
    cases h
    rw [ofNode, ofNode, shift]
    have hopening := hstands opening (by simp [Node.fragments])
    have hclosing := hstands closing (by simp [Node.fragments])
    have hraw := Fragment.between_append hopening hclosing pre post
    have hbody := ofNodes_shifted body fun f hf => hstands f (by simp [Node.fragments, hf])
    rw [hbody]
    show Instr.block polarity (Reference.ofName (name.shift (Text.byteLength pre)))
      (Fragment.between _ (opening.shift (Text.byteLength pre)).stop
        (closing.shift (Text.byteLength pre)).start) _ = _
    rw [hraw, Reference.ofName_shift]
  | .inclusion name indent whole, _, _, h => by
    cases h
    rfl

/-- Shifted nodes have a shifted program. -/
theorem ofNodes_shifted : ∀ ns : List Node, (∀ f ∈ Node.fragmentsAll ns, f.StandsIn text) →
    ofNodes (pre ++ (text ++ post)) (Node.outlineAll (.shifted (Text.byteLength pre)) ns) =
      shiftAll (Text.byteLength pre) (ofNodes text ns)
  | [], _ => rfl
  | n :: ns, hstands => by
    obtain ⟨n', hn'⟩ : ∃ n', n.outline (.shifted (Text.byteLength pre)) = some n' := by
      cases n <;> exact ⟨_, rfl⟩
    have hfirst := ofNode_shifted n n' (fun f hf => hstands f (by simp [Node.fragmentsAll, hf])) hn'
    have hrest := ofNodes_shifted ns fun f hf => hstands f (by simp [Node.fragmentsAll, hf])
    rw [Node.outlineAll, hn', ofNodes, shiftAll_cons, ← hfirst, ← hrest]
    rfl

end

end Instr

/-! ## Running shifted programs -/

/-- The error of a text that stands inside a source is the error of the text by itself, but that an
error about a value without a text shows its name in the source. -/
inductive Error.MovesTo (k : Nat) (text source : String) : Error → Error → Prop
  | same (e : Error) : MovesTo k text source e e
  | moved (found : Collection) (span : Span) :
      MovesTo k text source (.flawed ⟨⟨.notRenderable found, span⟩, text, none⟩)
        (.flawed ⟨⟨.notRenderable found, span.shift k⟩, source, none⟩)

namespace Render

variable {σ α β : Type}

/-- Both parts of a rendering come to the same, but that an error may be moved. -/
def Moved (k : Nat) (text source : String) (x y : Render σ α) : Prop :=
  ∀ p, (∃ a q, x p = .ok a q ∧ y p = .ok a q) ∨
    ∃ e e' q, e.MovesTo k text source e' ∧ x p = .error e q ∧ y p = .error e' q

namespace Moved

variable {k : Nat} {text source : String}

theorem refl (x : Render σ α) : Moved k text source x x := by
  intro p
  cases h : x p with
  | ok a q => exact .inl ⟨a, q, rfl, rfl⟩
  | error e q => exact .inr ⟨e, e, q, .same e, rfl, rfl⟩

theorem bind {x y : Render σ α} {f g : α → Render σ β} (hxy : Moved k text source x y)
    (hfg : ∀ a, Moved k text source (f a) (g a)) : Moved k text source (x >>= f) (y >>= g) := by
  intro p
  show (∃ b q, EStateM.bind x f p = _ ∧ EStateM.bind y g p = _) ∨
    ∃ e e' q, _ ∧ EStateM.bind x f p = _ ∧ EStateM.bind y g p = _
  unfold EStateM.bind
  rcases hxy p with ⟨a, q, hx, hy⟩ | ⟨e, e', q, he, hx, hy⟩
  · rw [hx, hy]
    exact hfg a q
  · rw [hx, hy]
    exact .inr ⟨e, e', q, he, rfl, rfl⟩

theorem forM {xs : List α} {f g : α → Render σ Unit}
    (h : ∀ x, Moved k text source (f x) (g x)) :
    Moved k text source (xs.forM f) (xs.forM g) := by
  induction xs with
  | nil => exact refl (pure ())
  | cons x xs ih => exact bind (h x) fun _ => ih

end Moved

variable {s : Setting σ} {nested : Option (Nested σ)} {t inner : Template} (k : Nat)

/-- The text of a lambda is run in the same way under the same live pair. -/
theorem expand_eq_of_live (hlive : inner.live = t.live) (ctx : Context) (text : String) :
    expand s nested inner ctx text = expand s nested t ctx text := by
  rw [expand, expand, hlive]

/-- The value of a shifted name is written in the same way, unless it has no text. -/
theorem moved_interpolate (hlive : inner.live = t.live) (ctx : Context) (escaping : Escaping)
    (target : Reference) :
    Moved k inner.source t.source (interpolate s nested inner ctx escaping target)
      (interpolate s nested t ctx escaping (target.shift k)) := by
  unfold interpolate
  rw [Context.resolve_shift]
  split
  · exact .refl _
  · simp only [expand_eq_of_live hlive]
    exact .refl _
  · split
    · exact .refl _
    · split
      · rename_i found _
        intro p
        refine .inr ⟨_, _, p, .moved found target.name.span, rfl, ?_⟩
        rw [Reference.shift, Fragment.span_shift]
        rfl
      · exact .refl _

mutual

/-- A shifted instruction does what the instruction does. -/
theorem moved_runInstr (hlive : inner.live = t.live) (ctx : Context) : ∀ i : Instr,
    Moved k inner.source t.source (runInstr s nested inner ctx i)
      (runInstr s nested t ctx (i.shift k))
  | .text whole => by
    rw [Instr.shift, runInstr, runInstr]
    exact .refl _
  | .interpolation escaping target => by
    rw [Instr.shift, runInstr, runInstr]
    exact moved_interpolate k hlive ctx escaping target
  | .block .upright target raw body => by
    rw [Instr.shift, runInstr, runInstr, Context.resolve_shift]
    split
    · exact .refl _
    · simp only [expand_eq_of_live hlive]
      exact .refl _
    · exact .forM fun item => moved_runAll hlive (ctx.push item) body
    · split
      · exact .refl _
      · exact moved_runAll hlive _ body
  | .block .inverted target raw body => by
    rw [Instr.shift, runInstr, runInstr, Context.resolve_shift]
    split
    · exact moved_runAll hlive ctx body
    · exact .refl _
  | .inclusion name indent => by
    rw [Instr.shift, runInstr, runInstr]
    exact .refl _

/-- A shifted program does what the program does. -/
theorem moved_runAll (hlive : inner.live = t.live) (ctx : Context) : ∀ is : List Instr,
    Moved k inner.source t.source (runAll s nested inner ctx is)
      (runAll s nested t ctx (Instr.shiftAll k is))
  | [] => by
    rw [Instr.shiftAll, runAll, runAll]
    exact .refl _
  | i :: is => by
    rw [Instr.shiftAll, runAll, runAll]
    exact .bind (moved_runInstr hlive ctx i) fun _ => moved_runAll hlive ctx is

end

end Render

end Mustache
