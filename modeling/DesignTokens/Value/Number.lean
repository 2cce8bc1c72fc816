import DesignTokens.Decimal.Fixed

/-!
# Number texts

How numbers are written in token values: rounded to a few places, with no trailing zeros and no
negative zero. A number that is not finite is written as `0`.
-/

namespace DesignTokens
namespace Value

/-- A whole power, by squaring. -/
def power (base : Float) (exponent : Nat) : Float :=
  go exponent.log2 1.0 base exponent
where
  /-- The power times `product`, with at most the given number of squarings. -/
  go : Nat → Float → Float → Nat → Float
    | 0, product, base, n => if n % 2 = 1 then product * base else product
    | steps + 1, product, base, n =>
        go steps (if n % 2 = 1 then product * base else product) (base * base) (n / 2)

/-- A number rounded to the given number of places, a half away from zero. -/
def roundTo (places : Nat) (x : Float) : Float :=
  let factor := power 10.0 places
  (x * factor).round / factor

/-- A number rounded to the given number of places, without trailing zeros. -/
def fixedText (x : Float) (places : Nat) : String :=
  let rounded := roundTo places x
  if rounded == 0.0 then "0"
  else match Decimal.Exact.ofFloat? rounded with
    | none => "0"
    | some exact => String.ofList (Decimal.trimZeros (Decimal.fixed places exact))

/-- A number with at most four places. -/
def numberText (x : Float) : String :=
  fixedText x 4

end Value
end DesignTokens
