import DesignTokens.Decimal.Nearest

/-!
# Exact remainders of floating-point numbers

The remainder of a division that truncates towards zero is always a floating-point number, so it
is computed exactly on integers over a common power of two. It has the sign of the dividend.
`remainderEuclid` moves it into the range from zero up to the divisor.
-/

namespace DesignTokens
namespace Decimal

/-- The value that is no number. -/
def notANumber : Float :=
  Float.ofBits 0x7FF8000000000000

/-- The remainder of `x / y` truncated, no number when `x` is infinite or `y` is zero. -/
def remainder (x y : Float) : Float :=
  match Exact.ofFloat? x, Exact.ofFloat? y with
  | some a, some b =>
      if b.significand = 0 then notANumber
      else
        let unit := min a.exponent b.exponent
        let m := a.significand * Nat.pow 2 (a.exponent - unit).toNat %
          (b.significand * Nat.pow 2 (b.exponent - unit).toNat)
        let sign := if a.negative then Nat.pow 2 63 else 0
        let magnitude :=
          if m = 0 then 0
          else (nearestBits? (m * Nat.pow 2 unit.toNat) (Nat.pow 2 (-unit).toNat)).getD 0
        Float.ofBits (UInt64.ofNat (sign + magnitude))
  | some _, none => if y.isNaN then notANumber else x
  | none, _ => notANumber

/-- The remainder moved into the range from zero up to a positive divisor. -/
def remainderEuclid (x y : Float) : Float :=
  let r := remainder x y
  if r < 0.0 then r + y.abs else r

end Decimal
end DesignTokens
