import Mathlib.Order.Compare
import Mathlib.Tactic.Ring
import SequenceChart.Json.Basic

/-!
# Whole numbers are finite

A whole number that fits in 64 bits becomes a finite floating-point number. What is packed is finite
if its exponent is small enough, and no step from a whole number to its packed form, rounding
included, raises the exponent by more than the number of bits that are shifted out.
-/

namespace SequenceChart

namespace Rounding

open Float.Model Float.Model.UnpackedFloat

/-- Zero, or a finite number whose exponent is at most the limit. -/
def Scaled (limit : Int) : UnpackedFloat → Prop
  | .zero _ => True
  | .finite _ _ exponent _ => exponent ≤ limit
  | _ => False

/-- Zero, or a finite number of 53 bits whose exponent is at most the limit. -/
def Below (limit : Int) : UnpackedFloat → Prop
  | .zero _ => True
  | .finite _ mantissa exponent _ => mantissa < 2 ^ 53 ∧ exponent ≤ limit
  | _ => False

theorem Below.mono {number : UnpackedFloat} {limit larger : Int} (hbelow : Below limit number)
    (hle : limit ≤ larger) : Below larger number := by
  cases number with
  | infinity | notANumber => exact hbelow
  | zero => trivial
  | finite => exact ⟨hbelow.1, hbelow.2.trans hle⟩

theorem unpackExponent_pack {number : UnpackedFloat} {limit : Int}
    (hscaled : Scaled limit number) (hlimit : limit ≤ 971) :
    ((unpackExponent (UnpackedFloat.pack Format.binary64 number)).toNat : Int) ≤
      max 0 (limit + 1075) := by
  cases number with
  | infinity | notANumber => cases hscaled
  | zero sign =>
    delta UnpackedFloat.pack
    dsimp only
    rw [packedZero, unpackExponent_packComponents]
    exact le_max_left _ _
  | finite sign mantissa exponent hpos =>
    have hexponent : exponent ≤ limit := hscaled
    have hbias : Format.binary64.exponentBias = 1023 := rfl
    delta UnpackedFloat.pack
    dsimp only
    rw [hbias]
    have hfits : ¬ 2 ^ 11 ≤ (exponent + (1023 : ℕ) + (52 : ℕ)).toNat + 1 := by omega
    rw [if_neg hfits]
    by_cases hnormal : mantissa.log2 + 1 = Format.binary64.mantissaBits
    · rw [if_pos hnormal, unpackExponent_packComponents, BitVec.toNat_ofNat]
      omega
    · rw [if_neg hnormal, unpackExponent_packComponents]
      exact le_max_left _ _

theorem below_unpack (bits : BitVec Format.binary64.numBits)
    (hexponent : (unpackExponent bits).toNat < 2047) :
    Below (max ((unpackExponent bits).toNat - 1075) (-1074))
      (UnpackedFloat.unpack Format.binary64 bits) := by
  have hbias : Format.binary64.exponentBias = 1023 := rfl
  have hother : unpackExponent bits ≠ -BitVec.ofNat Format.binary64.exponentBits 1 := by
    intro heq
    rw [heq] at hexponent
    exact absurd hexponent (by decide)
  have hmantissa : (unpackMantissa bits).toNat < 2 ^ 52 := (unpackMantissa bits).isLt
  delta UnpackedFloat.unpack
  dsimp only
  rw [hbias]
  rw [if_neg hother]
  by_cases hzero : unpackExponent bits = BitVec.ofNat Format.binary64.exponentBits 0
  · rw [if_pos hzero]
    by_cases hnone : unpackMantissa bits = 0#52
    · rw [dif_pos hnone]
      trivial
    · rw [dif_neg hnone]
      refine ⟨by omega, ?_⟩
      rw [hzero]
      simp
  · rw [if_neg hzero]
    refine ⟨?_, ?_⟩
    · have := (1#1 ++ unpackMantissa bits).isLt
      exact this
    · omega

/-! ### Rounding

A shift to the right halves the mantissa and adds one to the exponent, and rounding adds at most one
to the mantissa. So the two shifts of a rounding raise the exponent by at most twice the number of
bits. -/

theorem repeat_mantissa_le (extended : ExtendedMantissa) (count : ℕ) :
    (extended >>> count).mantissa ≤ extended.mantissa := by
  induction count with
  | zero => exact Nat.le_refl _
  | succ count ih => exact (Nat.div_le_self _ _).trans ih

/-- Packing loses nothing of the bounds. -/
theorem below_pack {number : UnpackedFloat} {limit : Int} (hscaled : Scaled limit number)
    (hnonneg : 0 ≤ limit) (hlimit : limit ≤ 971) :
    Below limit (Float.Model.pack number).unpack := by
  have hexponent := unpackExponent_pack hscaled hlimit
  have hbelow := below_unpack (UnpackedFloat.pack Format.binary64 number) (by omega)
  have hpacked : (Float.Model.pack number).unpack =
      UnpackedFloat.unpack Format.binary64 (UnpackedFloat.pack Format.binary64 number) := rfl
  rw [hpacked]
  apply hbelow.mono
  omega

theorem log2_le_of_lt {number bits : ℕ} (hlt : number < 2 ^ bits) : number.log2 ≤ bits := by
  by_cases hzero : number = 0
  · rw [hzero]
    exact Nat.zero_le _
  · exact ((Nat.log2_lt hzero).mpr hlt).le

theorem targetExponent_eq (mantissa : ℕ) (exponent : Int) :
    Format.binary64.targetExponent (totalExponent mantissa exponent) =
      max (mantissa.log2 + 1 + exponent - 53) (-1074) := by
  have hbits : Format.binary64.mantissaBits = 53 := rfl
  have hleast : Format.binary64.minExponent = -1074 := rfl
  rw [Format.targetExponent, hbits, hleast, totalExponent]
  rfl

theorem shift_le {mantissa : ℕ} {exponent limit : Int} (accuracy : Accuracy) {bits : ℕ}
    (hmantissa : mantissa.log2 ≤ bits) (hexponent : exponent ≤ limit) (hlimit : 0 ≤ limit) :
    (shiftToTargetExponent Format.binary64 mantissa exponent accuracy).1.mantissa ≤ mantissa ∧
      (shiftToTargetExponent Format.binary64 mantissa exponent accuracy).2 ≤ limit + bits := by
  have htarget : Format.binary64.targetExponent (totalExponent mantissa exponent) ≤
      limit + bits := by
    rw [targetExponent_eq]
    omega
  unfold shiftToTargetExponent shiftToExponent
  dsimp only
  constructor
  · refine (repeat_mantissa_le _ _).trans ?_
    unfold ExtendedMantissa.ofMantissaAndAccuracy
    split <;> exact Nat.le_refl _
  · omega

theorem roundedMantissa_le (extended : ExtendedMantissa) :
    extended.roundedMantissa ≤ extended.mantissa + 1 := by
  unfold ExtendedMantissa.roundedMantissa Accuracy.roundToNearestEven
  split <;> omega

theorem scaled_round {mantissa bits : ℕ} {exponent limit : Int} (sign : Sign)
    (accuracy : Accuracy) (hmantissa : mantissa < 2 ^ bits) (hexponent : exponent ≤ limit)
    (hlimit : 0 ≤ limit) :
    Scaled (limit + 2 * bits)
      (roundWithAccuracy Format.binary64 sign mantissa exponent accuracy) := by
  obtain ⟨hfirst, hshifted⟩ := shift_le accuracy (log2_le_of_lt hmantissa) hexponent hlimit
  unfold roundWithAccuracy
  generalize shiftToTargetExponent Format.binary64 mantissa exponent accuracy = first
    at hfirst hshifted
  obtain ⟨extended, shifted⟩ := first
  dsimp only at hfirst hshifted ⊢
  have hrounded := roundedMantissa_le extended
  have hlog : extended.roundedMantissa.log2 ≤ bits := by
    by_cases heq : extended.roundedMantissa = 2 ^ bits
    · rw [heq, Nat.log2_two_pow]
    · exact log2_le_of_lt (by omega)
  obtain ⟨-, hsecond⟩ := shift_le .exact hlog hshifted (by omega)
  generalize shiftToTargetExponent Format.binary64 extended.roundedMantissa shifted .exact = second
    at hsecond
  by_cases hempty : second.1.mantissa = 0
  · rw [dif_pos hempty]
    trivial
  · rw [dif_neg hempty]
    change second.2 ≤ limit + 2 * bits
    omega

theorem scaled_ofNat {number : ℕ} (hnumber : number < 2 ^ 64) :
    Scaled 232 (UnpackedFloat.ofNat Format.binary64 number) := by
  unfold UnpackedFloat.ofNat UnpackedFloat.ofInt UnpackedFloat.normalize
  split
  · rename_i hnegative
    have hlt : (number : Int) < 0 := compare_lt_iff_lt.mp hnegative
    omega
  · trivial
  · unfold UnpackedFloat.round decreaseExponent
    have htarget : -52 ≤ Format.binary64.targetExponent (totalExponent number 0) := by
      rw [targetExponent_eq]
      omega
    rw [Int.toNat_natCast]
    generalize Format.binary64.targetExponent (totalExponent number 0) = target at htarget
    have hshift : (0 - target).toNat ≤ 52 := by omega
    have hmantissa : number <<< (0 - target).toNat < 2 ^ 116 := by
      rw [Nat.shiftLeft_eq]
      calc
        number * 2 ^ (0 - target).toNat < 2 ^ 64 * 2 ^ (0 - target).toNat :=
          Nat.mul_lt_mul_of_pos_right hnumber (Nat.two_pow_pos _)
        _ ≤ 2 ^ 64 * 2 ^ 52 := Nat.mul_le_mul_left _ (Nat.pow_le_pow_right (by decide) hshift)
        _ = 2 ^ 116 := by rw [← Nat.pow_add]
    exact scaled_round _ _ hmantissa (by omega) (Int.le_refl 0)

theorem scaled_mul_finite {leftSign rightSign : Sign} {left right bits : ℕ}
    {leftExponent rightExponent limit : Int} {hleft : 0 < left} {hright : 0 < right}
    (hmantissa : left * right < 2 ^ bits) (hexponent : leftExponent + rightExponent ≤ limit)
    (hlimit : 0 ≤ limit) :
    Scaled (limit + 2 * bits) (UnpackedFloat.mul Format.binary64
      (.finite leftSign left leftExponent hleft) (.finite rightSign right rightExponent hright)) :=
  scaled_round _ _ hmantissa hexponent hlimit

theorem scaled_mul {left right : UnpackedFloat} {leftLimit rightLimit : Int}
    (hleft : Below leftLimit left) (hright : Below rightLimit right)
    (hlimit : 0 ≤ leftLimit + rightLimit) :
    Scaled (leftLimit + rightLimit + 212) (UnpackedFloat.mul Format.binary64 left right) := by
  cases left with
  | infinity | notANumber => cases hleft
  | zero =>
      cases right with
      | infinity | notANumber => cases hright
      | zero | finite => trivial
  | finite leftSign leftMantissa leftExponent _ =>
      cases right with
      | infinity | notANumber => cases hright
      | zero => trivial
      | finite rightSign rightMantissa rightExponent _ =>
          have hmantissa : leftMantissa * rightMantissa < 2 ^ 106 :=
            calc
              leftMantissa * rightMantissa < 2 ^ 53 * 2 ^ 53 :=
                Nat.mul_lt_mul'' hleft.1 hright.1
              _ = 2 ^ 106 := by rw [← Nat.pow_add]
          exact scaled_mul_finite hmantissa (add_le_add hleft.2 hright.2) hlimit

theorem isFinite_ofModel_pack {number : UnpackedFloat} {limit : Int} (hscaled : Scaled limit number)
    (hnonneg : 0 ≤ limit) (hlimit : limit ≤ 971) :
    (Float.ofModel (Float.Model.pack number)).isFinite = true := by
  have hbelow := below_pack hscaled hnonneg hlimit
  change (Float.Model.pack number).unpack.isFinite = true
  cases hunpacked : (Float.Model.pack number).unpack with
  | infinity | notANumber =>
      rw [hunpacked] at hbelow
      cases hbelow
  | zero | finite => rfl

theorem isFinite_ofNat {number : ℕ} (hnumber : number < 2 ^ 64) :
    (Float.ofNat number).isFinite = true := by
  change (Float.ofScientific number false 0).isFinite = true
  unfold Float.ofScientific
  split
  · rename_i hsmall
    have hword : number.toUInt64.toNat = number := UInt64.toNat_ofNat_of_lt' hnumber
    have hfirst : Below 232 (number.toUInt64.toFloat.toModel.unpack) := by
      refine below_pack ?_ (by decide) (by decide)
      change Scaled 232 (UnpackedFloat.ofNat Format.binary64 number.toUInt64.toNat)
      rw [hword]
      exact scaled_ofNat hnumber
    have hone : Below (-52) ((Float.ofBits 0x3FF0000000000000).toModel.unpack) :=
      ⟨by decide +kernel, by decide +kernel⟩
    exact isFinite_ofModel_pack (scaled_mul hfirst hone (by decide)) (by decide) (by decide)
  · dsimp only
    change (Float.ofModel (Float.Model.pack
      (UnpackedFloat.ofScientific Format.binary64 number 0))).isFinite = true
    unfold UnpackedFloat.ofScientific
    by_cases hzero : number = 0
    · rw [dif_pos hzero]
      rfl
    · have hrange : (2 : Int) ^ Format.binary64.exponentBits = 2048 := by decide
      have hlarge : ¬0 < -((2 : Int) ^ Format.binary64.exponentBits + number.log2) := by
        rw [hrange]
        omega
      rw [dif_neg hzero, if_neg (by decide), if_neg hlarge, if_pos (by decide)]
      have hbits : Format.binary64.mantissaBits = 53 := rfl
      have hmantissa :
          number <<< Format.binary64.mantissaBits * 10 ^ (0 : Int).toNat < 2 ^ 117 := by
        rw [hbits, Nat.shiftLeft_eq, Int.toNat_zero, Nat.pow_zero, Nat.mul_one]
        exact Nat.mul_lt_mul_of_pos_right hnumber (Nat.two_pow_pos 53)
      generalize_proofs hleft hright
      generalize (10 : ℕ) ^ (0 : Int).toNat = one at hright hmantissa ⊢
      have hexponent : -(Format.binary64.mantissaBits : Int) + 0 ≤ 0 := by decide
      exact isFinite_ofModel_pack (scaled_mul_finite hmantissa hexponent (Int.le_refl 0))
        (by decide) (by decide)

theorem below_of_isFinite {bits : BitVec Format.binary64.numBits}
    (hfinite : (UnpackedFloat.unpack Format.binary64 bits).isFinite = true) :
    Below 971 (UnpackedFloat.unpack Format.binary64 bits) := by
  have hexponent : (unpackExponent bits).toNat < 2047 := by
    by_contra hlarge
    have hlt : (unpackExponent bits).toNat < 2 ^ 11 := (unpackExponent bits).isLt
    have hones : unpackExponent bits = -BitVec.ofNat Format.binary64.exponentBits 1 := by
      apply BitVec.eq_of_toNat_eq
      have hvalue : (-BitVec.ofNat Format.binary64.exponentBits 1).toNat = 2047 := by decide
      omega
    delta UnpackedFloat.unpack at hfinite
    dsimp only at hfinite
    rw [if_pos hones] at hfinite
    by_cases hnone : unpackMantissa bits = 0#52
    · rw [if_pos hnone] at hfinite
      cases hfinite
    · rw [if_neg hnone] at hfinite
      cases hfinite
  apply (below_unpack bits hexponent).mono
  omega

theorem isFinite_neg {number : Float} (hfinite : number.isFinite = true) :
    number.neg.isFinite = true := by
  have hbelow : Below 971 number.toModel.unpack := below_of_isFinite hfinite
  have hscaled : Scaled 971 number.toModel.unpack.neg := by
    generalize number.toModel.unpack = unpacked at hbelow
    cases unpacked with
    | infinity | notANumber => cases hbelow
    | zero => trivial
    | finite => exact hbelow.2
  exact isFinite_ofModel_pack hscaled (by decide) (by decide)

/-- A whole number that fits in 64 bits, apart from its sign, is a finite floating-point number. -/
theorem isFinite_ofInt {number : Int} (hnumber : number.natAbs < 2 ^ 64) :
    (Float.ofInt number).isFinite = true := by
  cases number with
  | ofNat number => exact isFinite_ofNat hnumber
  | negSucc number => exact isFinite_neg (isFinite_ofNat hnumber)

end Rounding

end SequenceChart
