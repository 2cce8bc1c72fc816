import DesignTokens.Decimal.Exact

/-!
# Shortest decimals

The shortest decimal that reads back as a given floating-point number. Around the exact value lies
the interval of all numbers that round to it, its ends included when the significand is even. For
one, two, … seventeen digits the two neighbours of the value on the grid of decimals with that many
digits are tried; the first grid with a neighbour inside the interval wins, and of two neighbours
the nearer one, a tie going to the even digit.
-/

namespace DesignTokens
namespace Decimal

structure Digits where
  value : Nat
  exponent : Int
deriving DecidableEq, Repr

/-- The interval of numbers that round to a positive number, over a common denominator. -/
structure RoundingInterval where
  low : Nat
  value : Nat
  high : Nat
  denominator : Nat
  closed : Bool

namespace RoundingInterval

/-- The interval around `significand · 2 ^ exponent`. Below a power of two the neighbours are half
as far away. -/
def ofExact (x : Exact) : RoundingInterval :=
  let unit := x.exponent - 2
  let scale := Nat.pow 2 unit.toNat
  let m := x.significand
  let below := if m = Nat.pow 2 52 ∧ -1074 < x.exponent then 1 else 2
  { low := (4 * m - below) * scale
    value := 4 * m * scale
    high := (4 * m + 2) * scale
    denominator := Nat.pow 2 (-unit).toNat
    closed := m % 2 = 0 }

/-- The interval with its denominator scaled so that the grid `10 ^ grid` has unit one. -/
def onGrid (interval : RoundingInterval) (grid : Int) : RoundingInterval :=
  let up := Nat.pow 10 (-grid).toNat
  { interval with
    low := interval.low * up
    value := interval.value * up
    high := interval.high * up
    denominator := interval.denominator * Nat.pow 10 grid.toNat }

def holds (interval : RoundingInterval) (n : Nat) : Bool :=
  let x := n * interval.denominator
  if interval.closed then interval.low ≤ x && x ≤ interval.high
  else interval.low < x && x < interval.high

/-- The neighbour of the value in the interval, the nearer one of two. -/
def neighbour? (interval : RoundingInterval) : Option Nat :=
  let below := interval.value / interval.denominator
  let above := below + 1
  match interval.holds below, interval.holds above with
  | true, true => some (roundHalfEven interval.value interval.denominator)
  | true, false => some below
  | false, true => some above
  | false, false => none

end RoundingInterval

/-- The exponent `e` with `10 ^ e ≤ numerator / denominator < 10 ^ (e + 1)`, searched downwards from
one above the number of digits of the integer part. -/
def leadingExponent (numerator denominator : Nat) : Int :=
  go 400 ((digits (numerator / denominator)).length : Int)
where
  /-- The search from `e` downwards in at most the given number of steps. -/
  go : Nat → Int → Int
    | 0, e => e
    | n + 1, e =>
        if denominator * Nat.pow 10 e.toNat ≤ numerator * Nat.pow 10 (-e).toNat then e
        else go n (e - 1)

/-- The value without its trailing zeros, which go into the exponent. -/
def Digits.strip (d : Digits) : Digits :=
  go (digits d.value).length d
where
  /-- At most the given number of zeros moved into the exponent. -/
  go : Nat → Digits → Digits
    | 0, d => d
    | n + 1, d =>
        if d.value % 10 = 0 ∧ d.value ≠ 0 then go n ⟨d.value / 10, d.exponent + 1⟩ else d

def shortest (x : Exact) : Digits :=
  let interval := RoundingInterval.ofExact x
  let lead := leadingExponent interval.value interval.denominator
  go interval lead 17 0
where
  /-- The grids of `count + 1` and more digits, at most the given number of them. -/
  go (interval : RoundingInterval) (lead : Int) : Nat → Nat → Digits
    | 0, count =>
        let grid := lead - count
        let scaled := interval.onGrid grid
        ⟨roundHalfEven scaled.value scaled.denominator, grid⟩
    | n + 1, count =>
        let grid := lead - count
        match (interval.onGrid grid).neighbour? with
        | some value => Digits.strip ⟨value, grid⟩
        | none => go interval lead n (count + 1)

end Decimal
end DesignTokens
