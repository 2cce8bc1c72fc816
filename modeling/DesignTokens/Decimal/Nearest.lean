import DesignTokens.Decimal.Exact

/-!
# The floating-point number nearest to a decimal

`nearest?` rounds `± digits · 10 ^ exponent` to the nearest 64-bit floating-point number, a half
going to the even significand. It gives nothing when the magnitude is beyond the largest finite
number. Exponents far outside the range of floating-point numbers are decided without computing
their power of ten.
-/

namespace DesignTokens
namespace Decimal

/-- The binary exponent at which the fraction has a significand of 53 bits, never below that of
the smallest numbers. -/
def significandExponent (numerator denominator : Nat) : Int :=
  let estimate : Int := (numerator.log2 : Int) - denominator.log2 - 52
  -- the estimate is exact or one too large
  let tight : Int :=
    if numerator * Nat.pow 2 (-estimate).toNat <
        denominator * Nat.pow 2 estimate.toNat * Nat.pow 2 52
    then estimate - 1 else estimate
  max tight (-1074)

/-- The bits of the number nearest to a positive fraction, `none` beyond the largest one. -/
def nearestBits? (numerator denominator : Nat) : Option Nat :=
  let exponent := significandExponent numerator denominator
  let significand :=
    roundHalfEven (numerator * Nat.pow 2 (-exponent).toNat) (denominator * Nat.pow 2 exponent.toNat)
  -- a significand rounded up to 54 bits carries into the exponent field by itself
  let bits :=
    if significand < Nat.pow 2 52 then significand
    else (exponent + 1074).toNat * Nat.pow 2 52 + significand
  if bits < 2047 * Nat.pow 2 52 then some bits else none

/-- The number of decimal digits, one for zero. -/
def digitCount (n : Nat) : Nat :=
  (digits n).length

/-- The bits of the number nearest to `± value · 10 ^ exponent`. -/
def nearestSignedBits? (negative : Bool) (value : Nat) (exponent : Int) : Option UInt64 :=
  let sign := if negative then Nat.pow 2 63 else 0
  let magnitude? : Option Nat :=
    if value = 0 then some 0
    else if 400 < exponent + digitCount value then none
    else if exponent + digitCount value < -400 then some 0
    else nearestBits? (value * Nat.pow 10 exponent.toNat) (Nat.pow 10 (-exponent).toNat)
  magnitude?.map fun magnitude => UInt64.ofNat (sign + magnitude)

/-- The floating-point number nearest to `± value · 10 ^ exponent`. -/
def nearest? (negative : Bool) (value : Nat) (exponent : Int) : Option Float :=
  (nearestSignedBits? negative value exponent).map Float.ofBits

end Decimal
end DesignTokens
