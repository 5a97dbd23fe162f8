import Mathlib.Data.List.Forall2
import Mustache.Value

/-!
# Equality of values

Two values are equal if they have the same shape and agree at every place inside them.
What it means to agree is decided by the variants: numbers agree as numbers, so that a NaN
agrees with nothing, and lambdas agree if they are one and the same.  Equality inherits its
laws from this relation, to every depth.

Main results:

- Theorem `Value.equal_iff_members`: equality of two values by that of their members.
- Theorem `Value.equal_iff_agrees_at`: equal values agree at every place.
- Theorem `Value.equal_self_iff`: a value without a NaN equals itself, and no other does.
- Theorem `Value.equality_laws`: equality is a partial equivalence.
-/

namespace Mustache

open Number

/-! ## Places inside values -/

namespace Value

/-- The values inside a collection, in order. -/
def members : Value → List Value
  | list items => items
  | map entries => entries.map Prod.snd
  | _ => []

/-- The value at a place inside a value.  The way to the place gives the position of a member for
each collection on it. -/
def at? : Value → List Nat → Option Value
  | v, [] => some v
  | v, i :: path => v.members[i]?.bind fun member => at? member path

@[simp]
theorem at?_cons (v : Value) (i : Nat) (path : List Nat) :
    v.at? (i :: path) = v.members[i]?.bind fun member => member.at? path :=
  rfl

mutual

/-- What passes from its members to a value holds of every value. -/
theorem induction_on_members {motive : Value → Prop}
    (step : ∀ v : Value, (∀ w ∈ v.members, motive w) → motive v) : ∀ v : Value, motive v
  | null | bool _ | integer _ | float _ | text _ | lambda _ => step _ (by simp [members])
  | list items => step (list items) (forall_of_items step items)
  | map entries => step (map entries) (forall_of_entries step entries)

theorem forall_of_items {motive : Value → Prop}
    (step : ∀ v : Value, (∀ w ∈ v.members, motive w) → motive v) :
    ∀ items : List Value, ∀ w ∈ items, motive w
  | [] => by simp
  | v :: vs => List.forall_mem_cons.2 ⟨induction_on_members step v, forall_of_items step vs⟩

theorem forall_of_entries {motive : Value → Prop}
    (step : ∀ v : Value, (∀ w ∈ v.members, motive w) → motive v) :
    ∀ entries : List (String × Value), ∀ w ∈ entries.map Prod.snd, motive w
  | [] => by simp
  | (_, v) :: rest =>
    List.forall_mem_cons.2 ⟨induction_on_members step v, forall_of_entries step rest⟩

end

/-! ## Copies -/

mutual

/-- A copy of a value.  Everything is copied but lambdas, which a copy shares. -/
def copy : Value → Value
  | null => null
  | bool b => bool b
  | integer n => integer n
  | float x => float x
  | text s => text s
  | list items => list (copyItems items)
  | map entries => map (copyEntries entries)
  | lambda l => lambda l

/-- The copies of some values. -/
def copyItems : List Value → List Value
  | [] => []
  | v :: vs => copy v :: copyItems vs

/-- The copies of some entries. -/
def copyEntries : List (String × Value) → List (String × Value)
  | [] => []
  | (key, v) :: rest => (key, copy v) :: copyEntries rest

end

mutual

/-- A copy cannot be told from the value. -/
theorem copy_eq : ∀ v : Value, v.copy = v
  | null | bool _ | integer _ | float _ | text _ | lambda _ => rfl
  | list items => by rw [copy, copyItems_eq items]
  | map entries => by rw [copy, copyEntries_eq entries]

theorem copyItems_eq : ∀ items : List Value, copyItems items = items
  | [] => rfl
  | v :: vs => by rw [copyItems, copy_eq v, copyItems_eq vs]

theorem copyEntries_eq : ∀ entries : List (String × Value), copyEntries entries = entries
  | [] => rfl
  | (key, v) :: rest => by rw [copyEntries, copy_eq v, copyEntries_eq rest]

end

/-! ## Agreement -/

/-- The variants of values. -/
inductive Variant where
  | null
  | bool
  | integer
  | float
  | text
  | list
  | map
  | lambda
deriving DecidableEq, Repr

/-- The variant of a value. -/
def variant : Value → Variant
  | null => .null
  | bool _ => .bool
  | integer _ => .integer
  | float _ => .float
  | text _ => .text
  | list _ => .list
  | map _ => .map
  | lambda _ => .lambda

/-- Two values agree as far as it does not depend on their members.  They are of one variant.
Numbers are the same or both zero, and none of them is a NaN; maps have the same keys; lambdas are
one and the same. -/
def Agrees : Value → Value → Prop
  | null, null => True
  | bool a, bool b => a = b
  | integer m, integer n => m = n
  | float x, float y => x.isNaN = false ∧ y.isNaN = false ∧ (x = y ∨ x.isZero ∧ y.isZero)
  | text s, text t => s = t
  | list _, list _ => True
  | map xs, map ys => xs.map Prod.fst = ys.map Prod.fst
  | lambda l, lambda m => l.handle = m.handle
  | _, _ => False

namespace Agrees

variable {a b c : Value}

theorem variant_eq (h : a.Agrees b) : a.variant = b.variant := by
  cases a <;> cases b <;> first | rfl | exact h.elim

theorem symm (h : a.Agrees b) : b.Agrees a := by
  cases a <;> cases b <;> simp_all [Agrees]
  case float x y =>
    rcases h.2.2 with heq | ⟨hx, hy⟩
    · exact .inl heq.symm
    · exact .inr ⟨hy, hx⟩

theorem trans (hab : a.Agrees b) (hbc : b.Agrees c) : a.Agrees c := by
  have hvariants := hab.variant_eq.trans hbc.variant_eq
  cases a <;> cases b <;> cases c <;> simp_all [Agrees, variant]
  case float x y z =>
    obtain ⟨-, -, hxy⟩ := hab
    rcases hbc.2 with rfl | ⟨hy, hz⟩
    · exact hxy
    · rcases hxy with rfl | ⟨hx, -⟩
      · exact .inr ⟨hy, hz⟩
      · exact .inr ⟨hx, hz⟩

end Agrees

/-- A value agrees with itself unless it is a NaN. -/
theorem agrees_self_iff (v : Value) : v.Agrees v ↔ ∀ x, v = float x → x.isNaN = false := by
  cases v <;> simp [Agrees]

/-! ## Equality member by member -/

theorem equal_float_iff {x y : Binary64} :
    (float x).equal (float y) = true ↔ (float x).Agrees (float y) := by
  simp [equal, Binary64.numericallyEqual, Agrees, and_assoc]

/-- Lists are equal item by item. -/
theorem equalItems_iff {xs ys : List Value} :
    equalItems xs ys = true ↔ List.Forall₂ (fun v w => v.equal w = true) xs ys := by
  induction xs generalizing ys with
  | nil => cases ys <;> simp [equalItems]
  | cons x xs ih => cases ys <;> simp [equalItems, ih]

/-- Maps are equal if they have the same keys, and equal values in their order. -/
theorem equalEntries_iff {xs ys : List (String × Value)} :
    equalEntries xs ys = true ↔ xs.map Prod.fst = ys.map Prod.fst ∧
      List.Forall₂ (fun v w => v.equal w = true) (xs.map Prod.snd) (ys.map Prod.snd) := by
  induction xs generalizing ys with
  | nil => cases ys <;> simp [equalEntries]
  | cons x xs ih =>
    cases ys with
    | nil => simp [equalEntries]
    | cons y ys =>
      simp only [equalEntries, Bool.and_eq_true, beq_iff_eq, ih, List.map_cons, List.cons.injEq,
        List.forall₂_cons]
      tauto

/-- Two values are equal if they agree and their members are equal. -/
theorem equal_iff_members {a b : Value} :
    a.equal b = true ↔
      a.Agrees b ∧ List.Forall₂ (fun v w => v.equal w = true) a.members b.members := by
  cases a <;> cases b
  case float.float x y => simp [equal_float_iff, members]
  case list.list xs ys => simp [equal, equalItems_iff, Agrees, members]
  case map.map xs ys => simp [equal, equalEntries_iff, Agrees, members]
  all_goals simp [equal, Agrees, members]

/-! ## Equality at every place -/

/-- Two lists are related item by item if they are so at every position. -/
theorem forall₂_iff_rel_getElem? {α β : Type} {R : α → β → Prop} {xs : List α} {ys : List β} :
    List.Forall₂ R xs ys ↔ ∀ i : Nat, Option.Rel R xs[i]? ys[i]? := by
  constructor
  · intro h i
    induction h generalizing i with
    | nil => exact .none
    | cons hxy _ ih =>
      cases i with
      | zero => exact .some hxy
      | succ i => simpa using ih i
  · intro h
    induction xs generalizing ys with
    | nil =>
      cases ys with
      | nil => exact .nil
      | cons y ys => nomatch h 0
    | cons x xs ih =>
      cases ys with
      | nil => nomatch h 0
      | cons y ys =>
        cases h 0 with
        | some hxy => exact .cons hxy (ih fun i => by simpa using h (i + 1))

/-- Equal values have values at the same places, and these agree. -/
theorem equal_iff_agrees_at {a b : Value} :
    a.equal b = true ↔ ∀ path, Option.Rel Agrees (a.at? path) (b.at? path) := by
  induction a using induction_on_members generalizing b with
  | step a ih =>
    have hmember : ∀ i : Nat,
        Option.Rel (fun v w => v.equal w = true) a.members[i]? b.members[i]? ↔
          ∀ path, Option.Rel Agrees (a.at? (i :: path)) (b.at? (i :: path)) := by
      intro i
      simp only [at?_cons]
      cases hv : a.members[i]? with
      | none =>
        cases b.members[i]? with
        | none => exact ⟨fun _ _ => .none, fun _ => .none⟩
        | some w => exact ⟨nofun, fun h => nomatch h []⟩
      | some v =>
        cases b.members[i]? with
        | none => exact ⟨nofun, fun h => nomatch h []⟩
        | some w =>
          have hpaths := ih v (List.mem_of_getElem? hv) (b := w)
          constructor
          · rintro (hvw | _)
            exact hpaths.1 hvw
          · exact fun h => .some (hpaths.2 h)
    rw [equal_iff_members, forall₂_iff_rel_getElem?]
    constructor
    · rintro ⟨hagrees, hmembers⟩ path
      cases path with
      | nil => exact .some hagrees
      | cons i path => exact (hmember i).1 (hmembers i) path
    · intro h
      cases h [] with
      | some hagrees => exact ⟨hagrees, fun i => (hmember i).2 fun path => h (i :: path)⟩

/-! ## Laws -/

section

variable {a b c : Value}

/-- Equality is symmetric. -/
theorem equal_symm (h : a.equal b = true) : b.equal a = true := by
  rw [equal_iff_agrees_at] at *
  intro path
  have hpath := h path
  revert hpath
  cases a.at? path <;> cases b.at? path <;> simp
  exact Agrees.symm

/-- Equality is transitive. -/
theorem equal_trans (hab : a.equal b = true) (hbc : b.equal c = true) : a.equal c = true := by
  rw [equal_iff_agrees_at] at *
  intro path
  have hfirst := hab path
  have hsecond := hbc path
  revert hfirst hsecond
  cases a.at? path <;> cases b.at? path <;> cases c.at? path <;> simp
  exact Agrees.trans

/-- No number inside the value is a NaN. -/
def NaNFree (v : Value) : Prop :=
  ∀ path x, v.at? path = some (float x) → x.isNaN = false

/-- A value without a NaN equals itself, and no other does. -/
theorem equal_self_iff (v : Value) : v.equal v = true ↔ v.NaNFree := by
  rw [equal_iff_agrees_at]
  refine forall_congr' fun path => ?_
  cases v.at? path with
  | none => simp
  | some w => simp [agrees_self_iff]

/-- A NaN inside a map inside a list. -/
example : let v := list [map [("k", float ⟨0x7FF8000000000000⟩)]]; (v == v) = false := by decide

/-- Zeros of both signs are equal, and no integer equals a number with a point. -/
example : (float ⟨0⟩ == float ⟨0x8000000000000000⟩) = true ∧ (integer 0 == float ⟨0⟩) = false := by
  decide

/-- Values at the same place inside equal values agree. -/
theorem agrees_of_equal {path : List Nat} {v w : Value} (h : a.equal b = true)
    (hv : a.at? path = some v) (hw : b.at? path = some w) : v.Agrees w := by
  have hpath := equal_iff_agrees_at.1 h path
  rwa [hv, hw, Option.rel_some_some] at hpath

end

/-- Equality is a partial equivalence, and only NaNs keep it from being reflexive: it is symmetric
and transitive, and a value equals itself, and a copy of itself, if no number inside it is a NaN.
Values are equal if they have values at the same places and these agree.  So values with different
variants at a place are not equal, and lambdas are equal, by themselves and at every place, if they
are one and the same. -/
theorem equality_laws (a b c : Value) :
    ((a == b) = true → (b == a) = true) ∧
    ((a == b) = true → (b == c) = true → (a == c) = true) ∧
    ((a == a) = true ↔ a.NaNFree) ∧
    ((a == a.copy) = true ↔ a.NaNFree) ∧
    ((a == b) = true ↔ ∀ path, Option.Rel Agrees (a.at? path) (b.at? path)) ∧
    (∀ path v w, a.at? path = some v → b.at? path = some w → v.variant ≠ w.variant →
      (v == w) = false ∧ (a == b) = false) ∧
    (∀ l m, (lambda l == lambda m) = true ↔ l.handle = m.handle) ∧
    ∀ path l m, a.at? path = some (lambda l) → b.at? path = some (lambda m) →
      (a == b) = true → l.handle = m.handle := by
  have hbeq : ∀ v w : Value, (v == w) = v.equal w := fun _ _ => rfl
  simp only [hbeq, copy_eq]
  refine ⟨equal_symm, equal_trans, equal_self_iff a, equal_self_iff a, equal_iff_agrees_at, ?_, ?_,
    ?_⟩
  · intro path v w hv hw hne
    constructor <;> rw [Bool.eq_false_iff]
    · intro h
      have hself : v.at? [] = some v := rfl
      exact hne (agrees_of_equal h hself rfl).variant_eq
    · intro h
      exact hne (agrees_of_equal h hv hw).variant_eq
  · intro l m
    simp [equal]
  · intro path l m hl hm h
    exact agrees_of_equal h hl hm

end Value

end Mustache
