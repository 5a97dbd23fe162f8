/-!
# Shortest decimals

A binary floating point number stands for every real number that rounds to it.
Its shortest decimal is the one with the fewest digits among those reals, and
of several such the one nearest to the number.  All comparisons are made
between natural numbers, so nothing is rounded on the way.

Main results:

- Theorem `reads_back_of_nearest?`: what is found on a decimal grid rounds to
  the number.
- Theorem `Dyadic.shortest_spec`: the shortest decimal rounds to the number, and
  nothing around the number on a coarser grid does.
-/

namespace Mustache.Number

/-! ## Binary numbers and what rounds to them -/

/-- The positive number `significand * 2 ^ exponent` of a binary format. -/
structure Dyadic where
  significand : Nat
  exponent : Int
  /-- Whether the neighbour below is only half as far away as the neighbour above. -/
  narrow : Bool
deriving DecidableEq, Repr

/-- Which of two equally near decimals is taken. -/
inductive Tie where
  | up
  | even
deriving DecidableEq, Repr

/-- The neighbour that is taken, where twice the distance from the lower one is `rest`. -/
def Tie.choose (tie : Tie) (below rest step : Nat) : Nat :=
  if rest < step ∨ (rest = step ∧ tie = .even ∧ below % 2 = 0) then below else below + 1

/-- One of the two neighbours is taken. -/
theorem Tie.choose_eq (tie : Tie) (below rest step : Nat) :
    tie.choose below rest step = below ∨ tie.choose below rest step = below + 1 := by
  unfold choose
  split <;> simp

namespace Dyadic

/-- The number in quarters of its last binary place. -/
def centre (x : Dyadic) : Nat :=
  4 * x.significand

/-- The lower end of the reals that round to the number, in quarters of its last place. -/
def lower (x : Dyadic) : Nat :=
  x.centre - if x.narrow then 1 else 2

/-- The upper end of the reals that round to the number, in quarters of its last place. -/
def upper (x : Dyadic) : Nat :=
  x.centre + 2

/-- A count of quarter places on the common scale of the number and a decimal grid. -/
def scaleQuarters (x : Dyadic) (grid : Int) (quarters : Nat) : Nat :=
  quarters <<< (x.exponent - 2).toNat * Nat.pow 10 (-grid).toNat

/-- The common scale's measure of one step of a decimal grid. -/
def gridStep (x : Dyadic) (grid : Int) : Nat :=
  Nat.pow 10 grid.toNat <<< (2 - x.exponent).toNat

/-- Whether the decimal `count * 10 ^ grid` rounds to the number. -/
def readsBack (x : Dyadic) (grid : Int) (count : Nat) : Bool :=
  let decimal := count * x.gridStep grid
  let low := x.scaleQuarters grid x.lower
  let high := x.scaleQuarters grid x.upper
  if x.significand % 2 = 0 then
    low ≤ decimal && decimal ≤ high
  else
    low < decimal && decimal < high

/-! ## Search on decimal grids -/

/-- The nearer of the two grid points around the number, of which `below` is the lower one. -/
def nearer (x : Dyadic) (tie : Tie) (grid : Int) (below : Nat) : Nat :=
  tie.choose below (2 * (x.scaleQuarters grid x.centre - below * x.gridStep grid)) (x.gridStep grid)

/-- The point of a decimal grid, as a count of its steps, that stands for the number. -/
def nearest? (x : Dyadic) (tie : Tie) (grid : Int) : Option Nat :=
  let below := x.scaleQuarters grid x.centre / x.gridStep grid
  match x.readsBack grid below, x.readsBack grid (below + 1) with
  | true, true => some (x.nearer tie grid below)
  | true, false => some below
  | false, true => some (below + 1)
  | false, false => none

/-- What is found on a decimal grid rounds to the number. -/
theorem reads_back_of_nearest? {x : Dyadic} {tie : Tie} {grid : Int} {count : Nat}
    (h : x.nearest? tie grid = some count) : x.readsBack grid count = true := by
  unfold nearest? at h
  simp only at h
  split at h
  · cases h
    rcases tie.choose_eq (x.scaleQuarters grid x.centre / x.gridStep grid) _ _ with e | e <;>
      rw [nearer, e] <;> assumption
  · cases h
    assumption
  · cases h
    assumption
  · cases h

/-- If nothing is found, neither neighbour rounds to the number. -/
theorem nearest?_eq_none {x : Dyadic} {tie : Tie} {grid : Int} (h : x.nearest? tie grid = none) :
    x.readsBack grid (x.scaleQuarters grid x.centre / x.gridStep grid) = false ∧
      x.readsBack grid (x.scaleQuarters grid x.centre / x.gridStep grid + 1) = false := by
  unfold nearest? at h
  simp only at h
  split at h
  · cases h
  · cases h
  · cases h
  · exact ⟨by assumption, by assumption⟩

/-! ## The decimal of a number -/

/-- The zeros between the point and the first digit of a fraction below one. -/
def zerosAfterPoint : Nat → Nat → Nat → Nat
  | 0, _, _ => 0
  | bound + 1, numerator, denominator =>
    if denominator ≤ 10 * numerator then
      0
    else
      zerosAfterPoint bound (10 * numerator) denominator + 1

/-- The place of the decimal point before or after the first digit of the number. -/
def point (x : Dyadic) : Int :=
  let numerator := x.centre <<< (x.exponent - 2).toNat
  let denominator := 1 <<< (2 - x.exponent).toNat
  if denominator ≤ numerator then
    (Nat.toDigits 10 (numerator / denominator)).length
  else
    -(zerosAfterPoint (2 - x.exponent).toNat numerator denominator : Int)

end Dyadic

/-- The positive number `0.d₁d₂… * 10 ^ point`. -/
structure Decimal where
  digits : List Char
  point : Int
deriving DecidableEq, Repr

/-- The decimal that is so many steps of a grid, without zeros at its end. -/
def Decimal.ofGrid (count : Nat) (grid : Int) : Decimal :=
  let digits := Nat.toDigits 10 count
  ⟨(digits.reverse.dropWhile (· == '0')).reverse, digits.length + grid⟩

/-- The shortest decimal of a number that has at most seventeen digits. -/
def Dyadic.shortest (x : Dyadic) (tie : Tie) : Decimal :=
  let found := (List.range 17).findSome? fun n =>
    let grid := x.point - ((n + 1 : Nat) : Int)
    (x.nearest? tie grid).map fun count => Decimal.ofGrid count grid
  found.getD (Decimal.ofGrid 0 0)

/-- The shortest decimal is found on the coarsest grid of which one of the two points around the
number rounds to it.  What is found rounds to the number, and on no coarser grid does either
point. -/
theorem Dyadic.shortest_spec (x : Dyadic) (tie : Tie) :
    let grid := fun n : Nat => x.point - ((n + 1 : Nat) : Int)
    let below := fun n : Nat => x.scaleQuarters (grid n) x.centre / x.gridStep (grid n)
    let misses := fun n : Nat => x.readsBack (grid n) (below n) = false ∧
      x.readsBack (grid n) (below n + 1) = false
    (∃ n < 17, ∃ count, x.shortest tie = .ofGrid count (grid n) ∧
      x.readsBack (grid n) count = true ∧ ∀ m < n, misses m) ∨
      x.shortest tie = .ofGrid 0 0 ∧ ∀ m < 17, misses m := by
  intro grid below misses
  unfold shortest
  dsimp only
  cases hfound : (List.range 17).findSome? fun n =>
      (x.nearest? tie (grid n)).map fun count => Decimal.ofGrid count (grid n) with
  | none =>
    have hnone : ∀ m < 17, x.nearest? tie (grid m) = none := by
      simpa using hfound
    exact .inr ⟨rfl, fun m hm => nearest?_eq_none (hnone m hm)⟩
  | some d =>
    obtain ⟨before, n, after, hrange, hn, hbefore⟩ := List.findSome?_eq_some_iff.1 hfound
    obtain ⟨count, hcount, rfl⟩ := Option.map_eq_some_iff.1 hn
    rw [List.range_eq_range'] at hrange
    obtain ⟨k, -, rfl, hrest⟩ := List.range'_eq_append_iff.1 hrange
    -- what is found stands right behind the grids on which nothing is found
    obtain ⟨rfl, hlt⟩ : n = k ∧ k < 17 := by
      cases hlength : 17 - k with
      | zero =>
        rw [hlength] at hrest
        cases hrest
      | succ j =>
        rw [hlength, List.range'_succ, Nat.zero_add, Nat.mul_one] at hrest
        exact ⟨(List.cons.inj hrest).1, by omega⟩
    refine .inl ⟨n, hlt, count, rfl, reads_back_of_nearest? hcount, fun m hm => ?_⟩
    have hmem : m ∈ List.range' 0 n := List.mem_range'_1.2 ⟨Nat.zero_le m, by omega⟩
    exact nearest?_eq_none (Option.map_eq_none_iff.1 (hbefore m hmem))

end Mustache.Number
