/-!
# Exact values of floating-point numbers

A finite 64-bit floating-point number is an integer times a power of two. `Exact` holds that
number, and `numerator` and `denominator` write its magnitude as a fraction of natural numbers, on
which rounding to decimal digits is exact integer arithmetic.
-/

namespace DesignTokens
namespace Decimal

/-- The number `± significand · 2 ^ exponent`. -/
structure Exact where
  negative : Bool
  significand : Nat
  exponent : Int
deriving DecidableEq, Repr

namespace Exact

/-- The number with the given bits, `none` for an infinity and for what is no number. -/
def ofBits? (bits : UInt64) : Option Exact :=
  let n := bits.toNat
  let negative := decide (Nat.pow 2 63 ≤ n)
  let field : Nat := n / Nat.pow 2 52 % Nat.pow 2 11
  let fraction : Nat := n % Nat.pow 2 52
  if field = 2047 then none
  else if field = 0 then some ⟨negative, fraction, -1074⟩
  else some ⟨negative, Nat.pow 2 52 + fraction, (field : Int) - 1075⟩

def ofFloat? (x : Float) : Option Exact :=
  ofBits? x.toBits

def numerator (x : Exact) : Nat :=
  x.significand * Nat.pow 2 x.exponent.toNat

/-- Denominator of the magnitude, a power of two. -/
def denominator (x : Exact) : Nat :=
  Nat.pow 2 (-x.exponent).toNat

end Exact

/-- The quotient rounded to the nearest integer, a half to the even neighbour. -/
def roundHalfEven (numerator denominator : Nat) : Nat :=
  let quotient := numerator / denominator
  let twice := 2 * (numerator % denominator)
  if twice < denominator then quotient
  else if denominator < twice then quotient + 1
  else quotient + quotient % 2

def digits (n : Nat) : List Char :=
  Nat.toDigits 10 n

def ofDigits (s : List Char) : Nat :=
  s.foldl (fun n c => 10 * n + (c.toNat - '0'.toNat)) 0

/-- The decimal digits of a number, with zeros in front up to the given width. -/
def paddedDigits (width n : Nat) : List Char :=
  let text := digits n
  List.replicate (width - text.length) '0' ++ text

end Decimal
end DesignTokens
