import DesignTokens.Decimal.Exact

/-!
# Decimals with a fixed number of places

The exact value of a number is rounded to a given number of places after the point, a half going
to the even neighbour, and trailing zeros can then be trimmed.
-/

namespace DesignTokens
namespace Decimal

/-- The value with exactly the given number of places, and no point when there are none. -/
def fixed (places : Nat) (x : Exact) : List Char :=
  let scaled := roundHalfEven (x.numerator * Nat.pow 10 places) x.denominator
  let sign := if x.negative then ['-'] else []
  let whole := digits (scaled / Nat.pow 10 places)
  if places = 0 then sign ++ whole
  else sign ++ whole ++ '.' :: paddedDigits places (scaled % Nat.pow 10 places)

/-- The text without the given character at its end. -/
def trimEndOf (c : Char) (s : List Char) : List Char :=
  (s.reverse.dropWhile (· == c)).reverse

/-- A decimal with a point loses its trailing zeros, and then a trailing point. -/
def trimZeros (s : List Char) : List Char :=
  if s.contains '.' then trimEndOf '.' (trimEndOf '0' s) else s

end Decimal
end DesignTokens
