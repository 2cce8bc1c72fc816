import DesignTokens.Decimal.Nearest
import Mathlib

/-!
# Finite floating-point numbers

The floating-point number nearest to an integer of 64 bits is finite. A number overflows only when
its exponent passes 971, so that coarse bounds on significands and exponents are enough: rounding
and multiplying raise the exponent by no more than the bits that they have to drop. A decimal that
has a nearest floating-point number has a finite one.
-/

namespace DesignTokens
namespace Decimal

open Float.Model Float.Model.UnpackedFloat

/-- Zero, or a number with a significand up to `2 ^ bits` and an exponent up to the limit. -/
def Within (bits : Nat) (limit : Int) : UnpackedFloat → Prop
  | .zero _ => True
  | .finite _ significand exponent _ => significand ≤ 2 ^ bits ∧ exponent ≤ limit
  | .infinity _ => False
  | .notANumber => False

variable {m n bits bits' : Nat} {e limit limit' : Int} {x y : UnpackedFloat}

theorem Within.mono (h : Within bits limit x) (hlimit : limit ≤ limit') :
    Within bits limit' x := by
  cases x with
  | finite s m e hm =>
      exact ⟨h.1, h.2.trans hlimit⟩
  | zero s =>
      trivial
  | infinity s =>
      cases h
  | notANumber =>
      cases h

/-! ## Rounding -/

theorem log2_le_of_le (h : m ≤ 2 ^ bits) : m.log2 ≤ bits := by
  rw [Nat.log2_eq_log_two]
  simpa using Nat.log_mono_right (b := 2) h

theorem mantissa_shiftRight_le (em : ExtendedMantissa) (n : Nat) :
    (em >>> n).mantissa ≤ em.mantissa := by
  induction n with
  | zero =>
      exact Nat.le_refl _
  | succ n ih =>
      have hhalf : (em >>> (n + 1)).mantissa = (em >>> n).mantissa / 2 := rfl
      omega

theorem roundedMantissa_le (em : ExtendedMantissa) : em.roundedMantissa ≤ em.mantissa + 1 := by
  rcases em with ⟨m, _ | _, _ | _⟩ <;>
    simp only [ExtendedMantissa.roundedMantissa, ExtendedMantissa.accuracy,
      Accuracy.roundToNearestEven] <;> omega

/-- Shifting to the target exponent keeps the mantissa's bound and moves the exponent by the
mantissa's bits at most. -/
theorem shiftToTargetExponent_le (hm : m ≤ 2 ^ bits) (he : e ≤ limit) (hlimit : 0 ≤ limit)
    (accuracy : Accuracy) :
    (shiftToTargetExponent Format.binary64 m e accuracy).1.mantissa ≤ m ∧
      (shiftToTargetExponent Format.binary64 m e accuracy).2 ≤ limit + bits := by
  have hlog := log2_le_of_le hm
  constructor
  · refine (mantissa_shiftRight_le _ _).trans ?_
    rcases accuracy with _ | ⟨_ | _ | _⟩ <;> exact Nat.le_refl m
  · simp only [shiftToTargetExponent, shiftToExponent, Format.targetExponent, totalExponent,
      Format.mantissaBits, Format.minExponent]
    omega

/-- Rounding shifts twice, before the significand is rounded and after it. -/
theorem within_roundWithAccuracy (hm : m < 2 ^ bits) (he : e ≤ limit) (hlimit : 0 ≤ limit)
    (sign : Sign) (accuracy : Accuracy) :
    Within bits (limit + 2 * bits) (roundWithAccuracy Format.binary64 sign m e accuracy) := by
  rcases hfirst : shiftToTargetExponent Format.binary64 m e accuracy with ⟨em, shifted⟩
  have hshifted := shiftToTargetExponent_le hm.le he hlimit accuracy
  simp only [hfirst] at hshifted
  have hrounded : em.roundedMantissa ≤ 2 ^ bits := by
    have hstep := roundedMantissa_le em
    omega
  have hlimit' : (0 : Int) ≤ limit + bits := by omega
  have hfinal := shiftToTargetExponent_le hrounded hshifted.2 hlimit' .exact
  simp only [roundWithAccuracy, hfirst]
  split
  · trivial
  · exact ⟨hfinal.1.trans hrounded, by omega⟩

theorem within_ofNat (hn : n < 2 ^ bits) :
    Within (bits + 52) (2 * (bits + 52)) (UnpackedFloat.ofNat Format.binary64 n) := by
  rcases Nat.eq_zero_or_pos n with rfl | hpos
  · trivial
  · have hcompare : compare (n : Int) 0 = .gt := by
      rw [Int.compare_eq_gt]
      omega
    -- A small integer is first scaled up to a significand of 53 bits.
    have hshift : (0 - Format.binary64.targetExponent (totalExponent n 0)).toNat ≤ 52 := by
      simp only [Format.targetExponent, totalExponent, Format.mantissaBits, Format.minExponent]
      omega
    simp only [UnpackedFloat.ofNat, UnpackedFloat.ofInt, UnpackedFloat.normalize, hcompare,
      UnpackedFloat.round, Int.toNat_natCast, decreaseExponent]
    generalize (0 - Format.binary64.targetExponent (totalExponent n 0)).toNat = shift at hshift
    have hscaled : n <<< shift < 2 ^ (bits + 52) := by
      rw [Nat.shiftLeft_eq, Nat.pow_add]
      have hpow : (2 : Nat) ^ shift ≤ 2 ^ 52 := Nat.pow_le_pow_right (by norm_num) hshift
      calc
        n * 2 ^ shift
            < 2 ^ bits * 2 ^ shift := by gcongr
        _ ≤ 2 ^ bits * 2 ^ 52 := by gcongr
    have hexponent : (0 : Int) - shift ≤ 0 := by omega
    simpa using within_roundWithAccuracy hscaled hexponent (Int.le_refl 0) .positive .exact

/-- The bound of a product is the sum of the bounds, with room for one rounding. -/
theorem within_mul (hx : Within bits limit x) (hy : Within bits' limit' y) (hlimit : 0 ≤ limit)
    (hlimit' : 0 ≤ limit') :
    Within (bits + bits' + 1) (limit + limit' + 2 * (bits + bits' + 1))
      (UnpackedFloat.mul Format.binary64 x y) := by
  cases x with
  | infinity s =>
      cases hx
  | notANumber =>
      cases hx
  | zero s =>
      cases y with
      | infinity t =>
          cases hy
      | notANumber =>
          cases hy
      | zero t =>
          trivial
      | finite t n f hn =>
          trivial
  | finite s m e hm =>
      cases y with
      | infinity t =>
          cases hy
      | notANumber =>
          cases hy
      | zero t =>
          trivial
      | finite t n f hn =>
          -- The product of the significands has the bits of both, and one more for the strict
          -- bound.
          have hproduct : m * n ≤ 2 ^ bits * 2 ^ bits' := Nat.mul_le_mul hx.1 hy.1
          have hlt : m * n < 2 ^ (bits + bits' + 1) := by
            have hpos : 0 < 2 ^ bits * 2 ^ bits' := by positivity
            rw [Nat.pow_succ, Nat.pow_add]
            omega
          simpa [UnpackedFloat.mul] using within_roundWithAccuracy hlt (Int.add_le_add hx.2 hy.2)
            (by omega) (s * t) .exact

/-! ## Packing -/

/-- An unpacked pattern whose exponent field is small is within the bound of that exponent. -/
theorem within_unpack {b : BitVec Format.binary64.numBits} (hlimit : 0 ≤ limit)
    (hmax : limit ≤ 971) (h : (unpackExponent b).toNat ≤ limit + 1075) :
    Within 53 limit (unpack Format.binary64 b) := by
  have hne : unpackExponent b ≠ (-1#_) := by
    intro heq
    have hones : (unpackExponent b).toNat = 2047 := by rw [heq]; rfl
    omega
  have hbias : (((2 ^ (11 - 1) - 1 : Nat) : Int) + (52 : Nat)) = 1075 := by norm_num
  simp only [UnpackedFloat.unpack, hne, if_false, Format.exponentBias, hbias]
  split
  · rename_i hzero
    split
    · trivial
    · have hsignificand : (unpackMantissa b).toNat < 2 ^ 52 := (unpackMantissa b).isLt
      have hexponent : (unpackExponent b).toNat = 0 := by rw [hzero]; rfl
      exact ⟨by omega, by omega⟩
  · have hsignificand : (1#1 ++ unpackMantissa b).toNat < 2 ^ 53 := (1#1 ++ unpackMantissa b).isLt
    exact ⟨hsignificand.le, by omega⟩

/-- Nothing overflows up to the exponent 971. -/
theorem within_unpack_pack (h : Within bits limit x) (hlimit : 0 ≤ limit) (hmax : limit ≤ 971) :
    Within 53 limit (Float.Model.pack x).unpack := by
  unfold Float.Model.pack Float.Model.unpack
  cases x with
  | infinity s =>
      cases h
  | notANumber =>
      cases h
  | zero s =>
      cases s <;> trivial
  | finite s m e hm =>
      have hexponent : e ≤ limit := h.2
      -- The exponent leaves room, so that the float is not packed as an infinity.
      have hroom : ¬ 2 ^ 11 ≤ (e + ((2 ^ (11 - 1) - 1 : Nat) : Int) + (52 : Nat)).toNat + 1 := by
        norm_num
        omega
      simp only [UnpackedFloat.pack, Format.exponentBias, hroom, if_false]
      split
      · refine within_unpack hlimit hmax ?_
        simp only [unpackExponent_packComponents, BitVec.toNat_ofNat]
        omega
      · refine within_unpack hlimit hmax ?_
        simp only [unpackExponent_packComponents]
        simp
        omega

theorem isFinite_of_within {x : Float} (h : Within bits limit x.toModel.unpack) :
    x.isFinite = true := by
  unfold Float.isFinite Float.Model.isFinite
  cases hx : x.toModel.unpack with
  | zero s =>
      rfl
  | finite s m e hm =>
      rfl
  | infinity s =>
      rw [hx] at h
      cases h
  | notANumber =>
      rw [hx] at h
      cases h

/-! ## Integers -/

/-- The float one, unpacked. -/
theorem unpack_one : (Float.ofBits 0x3FF0000000000000).toModel.unpack =
    .finite .positive (2 ^ 52) (-52) (Nat.two_pow_pos 52) :=
  rfl

theorem within_mul_one (hm : 0 < m) (hbits : m ≤ 2 ^ bits) (he : e ≤ 0) :
    Within (bits + 1) (2 * (bits + 1)) (UnpackedFloat.mul Format.binary64
      (.finite .positive m e hm) (.finite .positive 1 0 Nat.one_pos)) := by
  have hnumber : Within bits 0 (.finite .positive m e hm) := ⟨hbits, he⟩
  have hone : Within 0 0 (.finite .positive 1 0 Nat.one_pos) := ⟨Nat.le_refl 1, Int.le_refl 0⟩
  simpa using within_mul hnumber hone (Int.le_refl 0) (Int.le_refl 0)

theorem ofScientific_zero (hn : n ≠ 0) (hscaled : 0 < n <<< Format.binary64.mantissaBits) :
    UnpackedFloat.ofScientific Format.binary64 n 0 =
      UnpackedFloat.mul Format.binary64
        (.finite .positive (n <<< Format.binary64.mantissaBits) (-Format.binary64.mantissaBits)
          hscaled)
        (.finite .positive 1 0 Nat.one_pos) := by
  unfold UnpackedFloat.ofScientific
  rw [dif_neg hn, if_neg (by simp), if_neg (by simp), if_pos (Int.le_refl 0)]
  simp

/-- Integers of 64 bits are within a bound far below the largest float. -/
theorem within_ofScientific (hn : n < 2 ^ 64) (hpos : n ≠ 0) :
    Within 118 236 (UnpackedFloat.ofScientific Format.binary64 n 0) := by
  have hscaled : n <<< Format.binary64.mantissaBits = n * 2 ^ 53 := by
    simp only [Format.mantissaBits, Nat.shiftLeft_eq]
  have hpositive : 0 < n <<< Format.binary64.mantissaBits := by omega
  have hbits : n <<< Format.binary64.mantissaBits ≤ 2 ^ 117 := by omega
  rw [ofScientific_zero hpos hpositive]
  refine (within_mul_one hpositive hbits ?_).mono ?_
  · omega
  · norm_num

/-- Below `2 ^ 53` an integer is converted as a word and multiplied by one, and beyond it is
multiplied out as a decimal. -/
theorem within_floatOfNat (hn : n < 2 ^ 64) : Within 53 600 (Float.ofNat n).toModel.unpack := by
  show Within 53 600 (Float.ofScientific n false 0).toModel.unpack
  unfold Float.ofScientific
  split
  · -- A number of 64 bits is converted and scaled by one.
    have hword : n.toUInt64.toNat = n := by
      simp
      omega
    have hconverted : Within 53 232 (n.toUInt64.toFloat).toModel.unpack := by
      show Within 53 232
        (Float.Model.pack (UnpackedFloat.ofNat Format.binary64 n.toUInt64.toNat)).unpack
      rw [hword]
      exact within_unpack_pack (within_ofNat hn) (by omega) (by omega)
    have hone : Within 53 0 (Float.ofBits 0x3FF0000000000000).toModel.unpack := by
      rw [unpack_one]
      exact ⟨by norm_num, by norm_num⟩
    have hproduct := within_mul hconverted hone (by omega) (by omega)
    have hpacked := within_unpack_pack hproduct (by omega) (by omega)
    exact hpacked.mono (by omega)
  · -- Any other number is rounded digit by digit.
    rename_i hlarge
    have hpos : n ≠ 0 := by
      simp at hlarge
      omega
    have hpacked := within_unpack_pack (within_ofScientific hn hpos) (by omega) (by omega)
    exact hpacked.mono (by omega)

theorem within_neg (h : Within bits limit x) : Within bits limit x.neg := by
  cases x <;> exact h

/-- Every integer of `i64` or `u64` is a finite float. -/
theorem isFinite_ofInt {i : Int} (hmin : -(2 ^ 63 : Int) ≤ i) (hmax : i < (2 ^ 64 : Int)) :
    (Float.ofInt i).isFinite = true := by
  cases i with
  | ofNat n =>
      have hn : n < 2 ^ 64 := by
        have hcast : (n : Int) < 2 ^ 64 := hmax
        omega
      exact isFinite_of_within (within_floatOfNat hn)
  | negSucc n =>
      have hn : n + 1 < 2 ^ 64 := by omega
      have hneg := within_neg (within_floatOfNat hn)
      have hpacked := within_unpack_pack hneg (by omega) (by omega)
      exact isFinite_of_within hpacked

/-! ## Decimals -/

theorem isFinite_ofBits {bits : UInt64} (h : bits.toNat / 2 ^ 52 % 2 ^ 11 ≤ 2046) :
    (Float.ofBits bits).isFinite = true := by
  have hexponent : (@unpackExponent Format.binary64 bits.toBitVec).toNat ≤ (971 + 1075 : Int) := by
    simp only [unpackExponent, BitVec.toNat_cast, BitVec.extractLsb_toNat]
    simp [Nat.shiftRight_eq_div_pow]
    omega
  have hunpacked := within_unpack (by omega) (Int.le_refl 971) hexponent
  exact isFinite_of_within (within_unpack_pack hunpacked (by omega) (by omega))

/-- Rounding to the nearest pattern stops before the patterns of infinity. -/
theorem nearestBits?_lt {numerator denominator bits : Nat}
    (h : nearestBits? numerator denominator = some bits) : bits < 2047 * 2 ^ 52 := by
  simp only [nearestBits?, Option.ite_none_right_eq_some, Option.some.injEq] at h
  exact h.2 ▸ h.1

/-- The exponent of a number that is rounded is never that of infinity. -/
theorem isFinite_of_nearest? {negative : Bool} {value : Nat} {exponent : Int} {x : Float}
    (h : nearest? negative value exponent = some x) : x.isFinite = true := by
  rcases Option.map_eq_some_iff.1 h with ⟨bits, hbits, rfl⟩
  rcases Option.map_eq_some_iff.1 hbits with ⟨magnitude, hmagnitude, rfl⟩
  have hlt : magnitude < 2047 * 2 ^ 52 := by
    split at hmagnitude
    · cases hmagnitude
      norm_num
    · split at hmagnitude
      · cases hmagnitude
      · split at hmagnitude
        · cases hmagnitude
          norm_num
        · exact nearestBits?_lt hmagnitude
  refine isFinite_ofBits ?_
  cases negative <;> simp <;> omega

end Decimal
end DesignTokens
