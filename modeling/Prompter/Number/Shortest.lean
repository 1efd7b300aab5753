import Prompter.Number.Binary

/-!
# Prompter.Number.Shortest

The shortest decimal that reads back as a given binary number.

A magnitude `m * 2 ^ q` owns the interval of reals that round to it: half a unit to each side, less
below at the start of a binade, ends included iff `m` is even. On each decimal grid `10 ^ k`, from
the coarsest downwards, the two neighbours of the magnitude are tried; the first grid with a
neighbour in the interval gives the fewest digits, and of two neighbours the nearer is taken. Where
both are equally near, the format that writes the number says which one it wants (`Tie`).
-/

namespace Prompter.Number

/-- A positive decimal `digits * 10 ^ exponent`. -/
structure Decimal where
  digits : Nat
  exponent : Int
deriving DecidableEq

/-- Which of two equally near decimals is taken. -/
inductive Tie
  /-- The larger one. -/
  | up
  /-- The one whose last digit is even. -/
  | toEven
deriving DecidableEq

/-- Whether the upper of two equally near neighbours is taken, given the digits of the lower. -/
def Tie.takesAbove : Tie → Nat → Bool
  | .up, _ => true
  | .toEven, below => below % 2 == 1

/-- A magnitude and its rounding interval, in units of a common fraction `1 / den`. -/
structure Interval where
  low : Nat
  value : Nat
  high : Nat
  den : Nat
  closed : Bool

/-- The rounding interval of the magnitude with significand `m` and exponent `q`; `narrowBelow`
says that the next magnitude below has half the unit. -/
def Interval.of (m : Nat) (q : Int) (narrowBelow : Bool) : Interval :=
  let unit : Nat := if 0 ≤ q then Nat.pow 2 q.toNat else 1
  let den : Nat := if 0 ≤ q then 4 else 4 * Nat.pow 2 (-q).toNat
  ⟨(4 * m - if narrowBelow then 1 else 2) * unit, 4 * m * unit, (4 * m + 2) * unit, den, m % 2 == 0⟩

/-- Whether `t / scale` lies in the interval, all in units of `1 / den`. -/
def Interval.holds (i : Interval) (t scale : Nat) : Bool :=
  if i.closed then decide (i.low * scale ≤ t) && decide (t ≤ i.high * scale)
  else decide (i.low * scale < t) && decide (t < i.high * scale)

/-- The neighbour on the grid `10 ^ k` that reads back and is nearest to the value, if one does. -/
def Interval.onGrid? (i : Interval) (tie : Tie) (k : Int) : Option Nat :=
  let grid : Nat := if 0 ≤ k then i.den * Nat.pow 10 k.toNat else i.den
  let scale : Nat := if 0 ≤ k then 1 else Nat.pow 10 (-k).toNat
  let below := i.value * scale / grid
  let above := below + 1
  let lowOk := i.holds (below * grid) scale
  let highOk := i.holds (above * grid) scale
  let toAbove := above * grid - i.value * scale
  let toBelow := i.value * scale - below * grid
  let nearerAbove := decide (toAbove < toBelow) || (toAbove == toBelow && tie.takesAbove below)
  if highOk && (nearerAbove || !lowOk) then some above
  else if lowOk then some below
  else none

/-- Searches the grids `10 ^ k`, `10 ^ (k - 1)`, …, at most `fuel` of them. -/
def Interval.search (i : Interval) (tie : Tie) : Nat → Int → Decimal
  | 0, k => ⟨i.value * Nat.pow 10 (-k).toNat / i.den, k⟩
  | fuel + 1, k =>
    match i.onGrid? tie k with
    | some digits => ⟨digits, k⟩
    | none => i.search tie fuel (k - 1)

/-- The shortest decimal of the finite positive magnitude with the given pattern. The search starts
above the leading digit and ends within the digits that always suffice (17 for binary64). -/
def Format.shortest (f : Format) (tie : Tie) (pattern : Nat) : Decimal :=
  let (m, q) := f.parts pattern
  let width := Nat.pow 2 (f.precision - 1)
  let start : Int := ((m.log2 : Int) + q) * 30103 / 100000 + 1
  (Interval.of m q (m == width && decide (width < pattern))).search tie 24 start

end Prompter.Number
