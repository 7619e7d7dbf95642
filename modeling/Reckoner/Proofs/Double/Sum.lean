import Mathlib
import Reckoner.Proofs.Double.Bits

namespace Reckoner.Double
open Float.Model (Format UnpackedFloat totalExponent)
open Float.Model.UnpackedFloat

theorem mantissa_shiftRight (extended : ExtendedMantissa) (count : Nat) :
    (extended >>> count).mantissa = extended.mantissa / 2 ^ count := by
  induction count with
  | zero =>
    change extended.mantissa = _
    rw [pow_zero, Nat.div_one]
  | succ count ih =>
    change (extended >>> count).mantissa / 2 = _
    rw [ih, Nat.div_div_eq_div_mul, pow_succ]

theorem mantissa_ofMantissaAndAccuracy (mantissa : Nat) (accuracy : Accuracy) :
    (ExtendedMantissa.ofMantissaAndAccuracy mantissa accuracy).mantissa = mantissa := by
  rcases accuracy with _ | _ | _ | _ <;> rfl

theorem le_roundedMantissa (extended : ExtendedMantissa) : extended.mantissa ≤ extended.roundedMantissa := by
  unfold ExtendedMantissa.roundedMantissa
  rcases extended.accuracy with _ | _ | _ | _ <;> simp only [Accuracy.roundToNearestEven] <;> omega

/-- At or above the least exponent a mantissa is cut to 53 binary digits. -/
theorem targetExponent_sub {mantissa : Nat} {exponent : Int} (least : -1074 ≤ exponent) :
    (Format.binary64.targetExponent (totalExponent mantissa exponent) - exponent).toNat = mantissa.log2 - 52 := by
  have target : Format.binary64.targetExponent (totalExponent mantissa exponent) =
      max ((mantissa.log2 : Int) + 1 + exponent - 53) (-1074) := rfl
  rw [target]
  omega

theorem cut_bounds {mantissa : Nat} (positive : 0 < mantissa) :
    0 < mantissa / 2 ^ (mantissa.log2 - 52) ∧ mantissa / 2 ^ (mantissa.log2 - 52) < 2 ^ 53 := by
  have lower := Nat.log2_self_le positive.ne'
  have upper : mantissa < 2 ^ (mantissa.log2 + 1) := Nat.lt_log2_self
  constructor
  · refine Nat.div_pos ?_ (Nat.two_pow_pos _)
    exact (Nat.pow_le_pow_right (by decide) (Nat.sub_le _ _)).trans lower
  · refine Nat.div_lt_of_lt_mul (upper.trans_le ?_)
    rw [← pow_add]
    exact Nat.pow_le_pow_right (by decide) (by omega)

/-- Rounding a number other than zero does not give zero, as long as its exponent is in reach. -/
theorem roundWithAccuracy_ne_zero (sign : Sign) {mantissa : Nat} {exponent : Int} (accuracy : Accuracy)
    (positive : 0 < mantissa) (least : -1074 ≤ exponent) :
    ∃ rounded power, ∃ here : 0 < rounded,
      roundWithAccuracy Format.binary64 sign mantissa exponent accuracy = .finite sign rounded power here ∧
        rounded < 2 ^ 53 ∧ -1074 ≤ power := by
  unfold roundWithAccuracy shiftToTargetExponent shiftToExponent
  simp only [targetExponent_sub least, mantissa_shiftRight, mantissa_ofMantissaAndAccuracy]
  have first := (cut_bounds positive).1
  have above := le_roundedMantissa
    (ExtendedMantissa.ofMantissaAndAccuracy mantissa accuracy >>> (mantissa.log2 - 52))
  rw [mantissa_shiftRight, mantissa_ofMantissaAndAccuracy] at above
  have next : -1074 ≤ exponent + (mantissa.log2 - 52 : Nat) := by omega
  simp only [targetExponent_sub next]
  obtain ⟨here, bound⟩ := cut_bounds (first.trans_le above)
  rw [dif_neg here.ne']
  exact ⟨_, _, here, rfl, bound, by omega⟩

theorem pack_finite_ne_negZero {sign : Sign} {mantissa : Nat} {exponent : Int} (positive : 0 < mantissa)
    (bound : mantissa < 2 ^ 53) (least : -1074 ≤ exponent) :
    pack Format.binary64 (.finite sign mantissa exponent positive) ≠ packedZero Format.binary64 .negative := by
  intro same
  have length := (Nat.log2_lt positive.ne').2 bound
  by_cases fits : exponent + 1075 < 2047
  · obtain ⟨field, atField⟩ := Int.eq_ofNat_of_zero_le (show 0 ≤ exponent + 1075 by omega)
    rw [pack_finite positive atField (by omega)] at same
    split at same
    · have fields := congrArg (fun word => (@unpackExponent Format.binary64 word).toNat) same
      simp only [packedZero, unpackExponent_packComponents] at fields
      change field % 2 ^ 11 = 0 at fields
      omega
    · have fields := congrArg (fun word => (@unpackMantissa Format.binary64 word).toNat) same
      simp only [packedZero, unpackMantissa_packComponents] at fields
      change mantissa % 2 ^ 52 = 0 at fields
      have short := (Nat.log2_lt (k := 52) positive.ne').1 (by omega)
      omega
  · have tooLarge : 2 ^ Format.binary64.exponentBits ≤
        (exponent + (Format.binary64.exponentBias : Int) + (52 : Nat)).toNat + 1 := by
      change 2048 ≤ (exponent + (1023 : Nat) + (52 : Nat)).toNat + 1
      omega
    simp only [pack, if_pos tooLarge] at same
    cases sign <;> exact absurd same (by decide)

theorem pack_round_ne_negZero (sign : Sign) {mantissa : Nat} {exponent : Int} (positive : 0 < mantissa)
    (least : -1074 ≤ exponent) :
    pack Format.binary64 (UnpackedFloat.round Format.binary64 sign mantissa exponent) ≠
      packedZero Format.binary64 .negative := by
  unfold UnpackedFloat.round decreaseExponent
  have target : -1074 ≤ Format.binary64.targetExponent (totalExponent mantissa exponent) :=
    le_max_right _ _
  obtain ⟨rounded, power, here, same, bound, above⟩ :=
    @roundWithAccuracy_ne_zero sign (mantissa <<< (exponent -
      Format.binary64.targetExponent (totalExponent mantissa exponent)).toNat) (exponent - (exponent -
        Format.binary64.targetExponent (totalExponent mantissa exponent)).toNat) .exact
      (by rw [Nat.shiftLeft_eq]; positivity) (by omega)
  simp only [same]
  exact pack_finite_ne_negZero here bound above

theorem pack_normalize_ne_negZero (mantissa : Int) {exponent : Int} (least : -1074 ≤ exponent) :
    pack Format.binary64 (UnpackedFloat.normalize Format.binary64 mantissa exponent .positive) ≠
      packedZero Format.binary64 .negative := by
  unfold UnpackedFloat.normalize
  split
  · rename_i below
    have := Int.compare_eq_lt.1 below
    exact pack_round_ne_negZero _ (by omega) least
  · decide
  · rename_i above
    have := Int.compare_eq_gt.1 above
    exact pack_round_ne_negZero _ (by omega) least

/-- The bounds on mantissa and exponent that all doubles keep. -/
def InReach : UnpackedFloat → Prop
  | .finite _ mantissa exponent _ => mantissa < 2 ^ 53 ∧ -1074 ≤ exponent
  | _ => True

theorem inReach_unpack (word : BitVec 64) : InReach (unpack Format.binary64 word) := by
  have low : (@unpackMantissa Format.binary64 word).toNat < 2 ^ 52 := BitVec.isLt _
  have bias : (Format.binary64.exponentBias : Int) = 1023 := rfl
  have fraction : (Format.binary64.mantissaBitsWithoutImplicit : Int) = 52 := rfl
  unfold unpack
  dsimp only
  split_ifs with full blank least zero
  · trivial
  · trivial
  · trivial
  · simp only [InReach, bias, fraction]
    omega
  · have field : (@unpackExponent Format.binary64 word).toNat ≠ 0 :=
      fun zero => least (BitVec.eq_of_toNat_eq zero)
    have sum := toNat_implicit_append (@unpackMantissa Format.binary64 word)
    simp only [InReach, bias, fraction]
    omega

theorem InReach.neg {a : UnpackedFloat} (reach : InReach a) : InReach a.neg := by
  cases a with
  | finite => exact reach
  | _ => trivial

theorem pack_ne_negZero {a : UnpackedFloat} (reach : InReach a) (other : a ≠ .zero .negative) :
    pack Format.binary64 a ≠ packedZero Format.binary64 .negative := by
  cases a with
  | infinity sign => cases sign <;> decide
  | notANumber => decide
  | zero sign =>
    cases sign with
    | negative => exact absurd rfl other
    | positive => decide
  | finite sign mantissa exponent positive => exact pack_finite_ne_negZero positive reach.1 reach.2

/-- Only the sum of two negative zeros is packed as one. -/
theorem pack_add_ne_negZero {a b : UnpackedFloat} (reachLeft : InReach a) (reachRight : InReach b)
    (other : ¬ (a = .zero .negative ∧ b = .zero .negative)) :
    pack Format.binary64 (UnpackedFloat.add Format.binary64 a b) ≠ packedZero Format.binary64 .negative := by
  cases a with
  | notANumber => cases b <;> exact pack_ne_negZero trivial nofun
  | infinity s =>
    cases b with
    | infinity t => cases s <;> cases t <;> exact pack_ne_negZero trivial nofun
    | _ => exact pack_ne_negZero trivial nofun
  | zero s =>
    cases b with
    | zero t =>
      cases s <;> cases t
      · exact absurd ⟨rfl, rfl⟩ other
      all_goals exact pack_ne_negZero trivial nofun
    | finite => exact pack_ne_negZero reachRight nofun
    | _ => exact pack_ne_negZero trivial nofun
  | finite s m e here =>
    cases b with
    | finite t n f there => exact pack_normalize_ne_negZero _ (le_min reachLeft.2 reachRight.2)
    | zero t => exact pack_ne_negZero reachLeft nofun
    | _ => exact pack_ne_negZero trivial nofun

theorem apply_neg (sign : Sign) (n : Int) : (-sign).apply n = -sign.apply n := by
  cases sign with
  | negative => exact (Int.neg_neg n).symm
  | positive => rfl

theorem sub_eq_add_neg_unpacked (a b : UnpackedFloat) :
    UnpackedFloat.sub Format.binary64 a b = UnpackedFloat.add Format.binary64 a b.neg := by
  cases a with
  | finite s m e here =>
    cases b with
    | finite t n f there =>
      simp only [UnpackedFloat.sub, UnpackedFloat.add, UnpackedFloat.neg, apply_neg, Int.sub_eq_add_neg]
    | _ => rfl
  | zero s => cases b <;> rfl
  | infinity s => cases b <;> rfl
  | notANumber => cases b <;> rfl

theorem ofModel_pack_unpack (x : Float) : Float.ofModel (Float.Model.pack x.toModel.unpack) = x := by
  have same := ofBits_toBits x
  exact same

theorem negZero_eq : (-0.0 : Float) = ofMagnitude true 0 := by decide +kernel

theorem posZero_eq : (0.0 : Float) = ofMagnitude false 0 := by decide +kernel

theorem eq_negZero_of_unpack {x : Float} (fields : x.toModel.unpack = .zero .negative) : x = -0.0 := by
  have same := ofModel_pack_unpack x
  rw [fields] at same
  rw [← same]
  rfl

theorem toBits_negZero : (-0.0 : Float).toModel.toBits.toBitVec = packedZero Format.binary64 .negative := by rfl

/-- A sum is the negative zero only if both summands are. -/
theorem eq_negZero_of_add {x y : Float} (sum : x + y = -0.0) : x = -0.0 ∧ y = -0.0 := by
  have word : pack Format.binary64 (UnpackedFloat.add Format.binary64 x.toModel.unpack y.toModel.unpack) =
      packedZero Format.binary64 .negative := by
    rw [← toBits_negZero, ← sum]
    rfl
  by_contra other
  refine pack_add_ne_negZero (inReach_unpack _) (inReach_unpack _) (fun both => other ?_) word
  exact ⟨eq_negZero_of_unpack both.1, eq_negZero_of_unpack both.2⟩

/-- A difference is the negative zero only if the number subtracted from is. -/
theorem eq_negZero_of_sub {x y : Float} (difference : x - y = -0.0) : x = -0.0 := by
  have word : pack Format.binary64 (UnpackedFloat.sub Format.binary64 x.toModel.unpack y.toModel.unpack) =
      packedZero Format.binary64 .negative := by
    rw [← toBits_negZero, ← difference]
    rfl
  rw [sub_eq_add_neg_unpacked] at word
  by_contra other
  refine pack_add_ne_negZero (inReach_unpack _) (inReach_unpack _).neg (fun both => other ?_) word
  exact eq_negZero_of_unpack both.1

theorem unpack_ne_negZero {x : Float} (other : x ≠ -0.0) : x.toModel.unpack ≠ .zero .negative :=
  fun fields => other (eq_negZero_of_unpack fields)

/-- A double other than the negative zero compares as equal to zero only if it is zero. -/
theorem eq_posZero_of_beq {x : Float} (other : x ≠ -0.0) (equal : (x == 0) = true) : x = 0.0 := by
  have fields := unpack_ne_negZero other
  have same := ofModel_pack_unpack x
  have compared : (x.toModel.unpack.compare (.zero .positive) == some .eq) = true := equal
  cases atFields : x.toModel.unpack with
  | zero sign =>
    rw [atFields] at same fields
    cases sign with
    | negative => exact absurd rfl fields
    | positive => exact same.symm
  | infinity sign =>
    rw [atFields] at compared
    cases sign <;> exact nomatch compared
  | finite sign =>
    rw [atFields] at compared
    cases sign <;> exact nomatch compared
  | notANumber =>
    rw [atFields] at compared
    exact nomatch compared

/-- Adding to zero changes no double other than the negative zero. -/
theorem zero_add_of_ne {x : Float} (other : x ≠ -0.0) : 0.0 + x = x := by
  have fields := unpack_ne_negZero other
  have same : UnpackedFloat.add Format.binary64 (.zero .positive) x.toModel.unpack = x.toModel.unpack := by
    cases h : x.toModel.unpack with
    | zero sign =>
      cases sign with
      | negative => exact absurd h fields
      | positive => rfl
    | _ => rfl
  change Float.ofModel (Float.Model.pack (UnpackedFloat.add Format.binary64 (.zero .positive) x.toModel.unpack)) = x
  rw [same, ofModel_pack_unpack]

theorem unpack_opposite {word opposite : BitVec 64} (apart : opposite.toNat = signBit + word.toNat) :
    unpack Format.binary64 opposite = (unpack Format.binary64 word).neg := by
  have bound : opposite.toNat < 2 ^ 64 := opposite.isLt
  unfold signBit at apart
  have mantissas : @unpackMantissa Format.binary64 opposite = @unpackMantissa Format.binary64 word := by
    apply BitVec.eq_of_toNat_eq
    rw [toNat_unpackMantissa, toNat_unpackMantissa, apart]
    omega
  have exponents : @unpackExponent Format.binary64 opposite = @unpackExponent Format.binary64 word := by
    apply BitVec.eq_of_toNat_eq
    rw [toNat_unpackExponent, toNat_unpackExponent, apart]
    omega
  have positive : @unpackSign Format.binary64 word = 0#1 := by
    apply BitVec.eq_of_toNat_eq
    rw [toNat_unpackSign]
    exact Nat.div_eq_of_lt (by omega)
  have negative : @unpackSign Format.binary64 opposite = 1#1 := by
    apply BitVec.eq_of_toNat_eq
    rw [toNat_unpackSign, apart]
    change _ = 1
    omega
  unfold unpack
  simp only [mantissas, exponents, positive, negative]
  split_ifs <;> rfl

/-- Subtracting a positive double from zero gives the negative double of the same magnitude. -/
theorem zero_sub_ofMagnitude {bits : Nat} (positive : 0 < bits) (bound : bits ≤ infinityBits) :
    0.0 - ofMagnitude false bits = ofMagnitude true bits := by
  have plain := toBits_ofMagnitude false bound
  have signed := toBits_ofMagnitude true bound
  have opposite : (ofMagnitude true bits).toModel.unpack = (ofMagnitude false bits).toModel.unpack.neg := by
    refine unpack_opposite ?_
    change (ofMagnitude true bits).toBits.toNat = signBit + (ofMagnitude false bits).toBits.toNat
    rw [plain, signed]
    simp only [if_true, Bool.false_eq_true, if_false, Nat.zero_add]
  have other : ∀ sign, (ofMagnitude false bits).toModel.unpack ≠ .zero sign := by
    intro sign fields
    have same := ofModel_pack_unpack (ofMagnitude false bits)
    rw [fields] at same
    cases sign with
    | negative =>
      have zero := same.symm.trans negZero_eq
      have signs := (ofMagnitude_inj bound (Nat.zero_le _)).1 zero
      exact Bool.noConfusion signs.1
    | positive =>
      have zero := same.symm.trans posZero_eq
      have sizes := (ofMagnitude_inj bound (Nat.zero_le _)).1 zero
      omega
  have difference : UnpackedFloat.sub Format.binary64 (.zero .positive) (ofMagnitude false bits).toModel.unpack =
      (ofMagnitude true bits).toModel.unpack := by
    rw [opposite]
    cases fields : (ofMagnitude false bits).toModel.unpack with
    | zero sign => exact absurd fields (other sign)
    | _ => rfl
  change Float.ofModel (Float.Model.pack (UnpackedFloat.sub Format.binary64 (.zero .positive) _)) = _
  rw [difference, ofModel_pack_unpack]

end Reckoner.Double
