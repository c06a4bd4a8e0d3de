import ParamStore.Number.Binary

/-!
# Shortest decimals — the fewest digits that read back

A binary number is the nearest one to every real of an interval around it: half a unit on each
    side, a quarter below a power of two. Its shortest decimal is found on the decimal grids
    10 ^ k, from coarse to fine: the first grid with a point in the interval wins, of two such
    points the nearer one, and of two equally near the upper one. All comparisons are made
    between natural numbers.

* **`interval`** — the reals that round to a number, in quarters of its unit.
* **`shortest`** — coefficient and exponent of the decimal.
-/

namespace ParamStore.Number

/-- A positive decimal: coefficient times ten to the exponent. -/
structure Decimal where
  coefficient : Nat
  exponent : Int
deriving DecidableEq, Repr

/-- The reals around a number, as naturals over one divisor: the number itself, both ends, and
    whether the ends belong. -/
structure Interval where
  value : Nat
  low : Nat
  high : Nat
  unit : Nat
  closed : Bool

/-- The reals that round to significand · 2 ^ exponent. Below a power of two the neighbours are
    half as far apart, unless the exponent is the least. -/
def interval (f : BinaryFormat) (significand : Nat) (exponent : Int) : Interval :=
  let quarter := shiftRatio 1 1 (2 - exponent)
  let narrow := significand = Nat.pow 2 (f.precision - 1) ∧ f.bottom < exponent
  { value := 4 * significand * quarter.1
    low := (4 * significand - (if narrow then 1 else 2)) * quarter.1
    high := (4 * significand + 2) * quarter.1
    unit := quarter.2
    closed := significand % 2 = 0 }

/-- The point `coefficient` of the grid `num / den` lies in the interval. -/
def Interval.hits (i : Interval) (num den coefficient : Nat) : Bool :=
  let point := coefficient * num * i.unit
  if i.closed then i.low * den ≤ point && point ≤ i.high * den
  else i.low * den < point && point < i.high * den

/-- The point of the grid that stands for the interval's number: of the two around it, one that
    lies in the interval, the nearer one if both do, the upper one if both are equally near. -/
def Interval.pick (i : Interval) (num den : Nat) : Option Nat :=
  let below := i.value * den / (num * i.unit)
  let above := below + 1
  let scaled := 2 * (i.value * den)
  let middle := (below + above) * num * i.unit
  match i.hits num den below && 0 < below, i.hits num den above with
  | true, true => some (if scaled < middle then below else above)
  | true, false => some below
  | false, true => some above
  | false, false => none

/-- Ten to an exponent of either sign, as a quotient. -/
def tenTo (k : Int) : Nat × Nat :=
  if 0 ≤ k then (Nat.pow 10 k.toNat, 1) else (1, Nat.pow 10 (-k).toNat)

/-- The coefficient without its trailing zeros, which move into the exponent. -/
def Decimal.strip : Nat → Decimal → Decimal
  | 0, d => d
  | fuel + 1, d =>
    if d.coefficient ≠ 0 ∧ d.coefficient % 10 = 0 then
      Decimal.strip fuel ⟨d.coefficient / 10, d.exponent + 1⟩
    else d

/-- Looks for a point on ever finer grids. A double needs at most seventeen digits, so the search
    ends before `fuel` does. -/
def refine (i : Interval) : Nat → Int → Decimal
  | 0, k => ⟨i.value * (tenTo k).2 / ((tenTo k).1 * i.unit), k⟩
  | fuel + 1, k =>
    let grid := tenTo k
    match i.pick grid.1 grid.2 with
    | some coefficient => ⟨coefficient, k⟩
    | none => refine i fuel (k - 1)

/-- The exponent of the coarsest grid worth trying: no grid above it has a positive point below
    the number, and at most one above that could stand for it. -/
def coarsest (significand : Nat) (exponent : Int) : Int :=
  ((significand.log2 : Int) + exponent) * 30103 / 100000 + 1

/-- The shortest decimal that rounds to a positive number, the nearest of those. -/
def shortest (f : BinaryFormat) (significand : Nat) (exponent : Int) : Decimal :=
  let found := refine (interval f significand exponent) 40 (coarsest significand exponent)
  found.strip 40

end ParamStore.Number
