import Mathlib
import Reckoner.Double.Nearest

namespace Reckoner.Double
open Float.Model (Format UnpackedFloat)
open Float.Model.UnpackedFloat

theorem toNat_packComponents (sign : Sign) (exponent : BitVec 11) (mantissa : BitVec 52) :
    (packComponents Format.binary64 sign exponent mantissa).toNat =
      sign.toBitVec.toNat * 2 ^ 63 + exponent.toNat * 2 ^ 52 + mantissa.toNat := by
  have low : mantissa.toNat < 2 ^ 52 := mantissa.isLt
  have middle : exponent.toNat < 2 ^ 11 := exponent.isLt
  change (sign.toBitVec ++ exponent ++ mantissa).toNat = _
  rw [BitVec.toNat_append, BitVec.toNat_append, ← Nat.shiftLeft_add_eq_or_of_lt low,
    ← Nat.shiftLeft_add_eq_or_of_lt middle, Nat.shiftLeft_eq, Nat.shiftLeft_eq]
  ring

theorem toNat_unpackMantissa (word : BitVec 64) :
    (@unpackMantissa Format.binary64 word).toNat = word.toNat % 2 ^ 52 := by
  simp [unpackMantissa, BitVec.extractLsb, BitVec.extractLsb']

theorem toNat_unpackExponent (word : BitVec 64) :
    (@unpackExponent Format.binary64 word).toNat = word.toNat / 2 ^ 52 % 2 ^ 11 := by
  simp [unpackExponent, BitVec.extractLsb, BitVec.extractLsb', Nat.shiftRight_eq_div_pow]

theorem toNat_unpackSign (word : BitVec 64) :
    (@unpackSign Format.binary64 word).toNat = word.toNat / 2 ^ 63 := by
  have bound : word.toNat < 2 ^ 64 := word.isLt
  have bit : word.toNat / 2 ^ 63 % 2 ^ 1 = word.toNat / 2 ^ 63 := Nat.mod_eq_of_lt (by omega)
  change (word.extractLsb' 63 1).toNat = _
  rw [BitVec.extractLsb'_toNat, Nat.shiftRight_eq_div_pow, bit]

theorem toBitVec_ofBitVec (bit : BitVec 1) : (Sign.ofBitVec bit).toBitVec = bit := by
  revert bit
  decide

theorem packComponents_fields (word : BitVec 64) :
    packComponents Format.binary64 (Sign.ofBitVec (@unpackSign Format.binary64 word))
      (@unpackExponent Format.binary64 word) (@unpackMantissa Format.binary64 word) = word := by
  apply BitVec.eq_of_toNat_eq
  rw [toNat_packComponents, toBitVec_ofBitVec, toNat_unpackSign, toNat_unpackExponent, toNat_unpackMantissa]
  have bound : word.toNat < 2 ^ 64 := word.isLt
  omega

theorem toNat_implicit_append (mantissa : BitVec 52) : (1#1 ++ mantissa).toNat = 2 ^ 52 + mantissa.toNat := by
  rw [BitVec.toNat_append, ← Nat.shiftLeft_add_eq_or_of_lt mantissa.isLt]
  rfl

/-- The packed word of a finite double by the exponent field that its exponent asks for. -/
theorem pack_finite {sign : Sign} {mantissa field : Nat} {exponent : Int} (positive : 0 < mantissa)
    (atField : exponent + 1075 = field) (fits : field < 2047) :
    pack Format.binary64 (.finite sign mantissa exponent positive) =
      if mantissa.log2 = 52 then packComponents Format.binary64 sign (BitVec.ofNat 11 field) (BitVec.ofNat 52 mantissa)
      else packComponents Format.binary64 sign 0 (BitVec.ofNat 52 mantissa) := by
  have biased : (exponent + (Format.binary64.exponentBias : Int) + (52 : Nat)).toNat = field := by
    change (exponent + (1023 : Nat) + (52 : Nat)).toNat = field
    omega
  have room : ¬ 2 ^ Format.binary64.exponentBits ≤ field + 1 := by
    change ¬ 2048 ≤ field + 1
    omega
  have full : mantissa.log2 + 1 = Format.binary64.mantissaBits ↔ mantissa.log2 = 52 := by
    change mantissa.log2 + 1 = 1 + 52 ↔ _
    omega
  simp only [pack, biased, if_neg room, full]
  rfl

theorem pack_subnormal {sign : Sign} {mantissa : BitVec 52} {exponent : Int} (positive : 0 < mantissa.toNat)
    (atField : exponent + 1075 = (1 : Nat)) :
    pack Format.binary64 (.finite sign mantissa.toNat exponent positive) =
      packComponents Format.binary64 sign 0 mantissa := by
  have low : mantissa.toNat < 2 ^ 52 := mantissa.isLt
  have length := (Nat.log2_lt positive.ne').2 low
  rw [pack_finite positive atField (by decide), if_neg (by omega), BitVec.ofNat_toNat, BitVec.setWidth_eq]

theorem pack_normal {sign : Sign} {mantissa : BitVec 52} {field : BitVec 11} {exponent : Int}
    (positive : 0 < (1#1 ++ mantissa).toNat) (atField : exponent + 1075 = field.toNat) (fits : field.toNat < 2047) :
    pack Format.binary64 (.finite sign (1#1 ++ mantissa).toNat exponent positive) =
      packComponents Format.binary64 sign field mantissa := by
  have low : mantissa.toNat < 2 ^ 52 := mantissa.isLt
  have sum := toNat_implicit_append mantissa
  have length : (1#1 ++ mantissa).toNat.log2 = 52 := by
    rw [Nat.log2_eq_iff (by omega)]
    omega
  have cleared : BitVec.ofNat 52 (1#1 ++ mantissa).toNat = mantissa := by
    apply BitVec.eq_of_toNat_eq
    rw [BitVec.toNat_ofNat, sum]
    omega
  rw [pack_finite positive atField fits, if_pos length, cleared, BitVec.ofNat_toNat, BitVec.setWidth_eq]

/-- Unpacking a word and packing it again gives the word back, unless it stands for the missing number without being
the one word chosen for it. -/
theorem pack_unpack {word : BitVec 64} (valid : Format.binary64.Valid word) :
    pack Format.binary64 (unpack Format.binary64 word) = word := by
  have back := packComponents_fields word
  have middle : (@unpackExponent Format.binary64 word).toNat < 2 ^ 11 := BitVec.isLt _
  unfold unpack
  dsimp only
  split
  · rename_i full
    split
    · rename_i blank
      rw [full, blank] at back
      exact back
    · rename_i filled
      exact (valid.eq_packedNaN full filled).symm
  · rename_i short
    have below : (@unpackExponent Format.binary64 word).toNat ≠ 2047 :=
      fun full => short (BitVec.eq_of_toNat_eq full)
    split
    · rename_i least
      split
      · rename_i blank
        rw [least, blank] at back
        exact back
      · have atField : ((@unpackExponent Format.binary64 word).toNat : Int) -
            (Format.binary64.exponentBias + (52 : Nat)) + 1 + 1075 = (1 : Nat) := by rw [least]; rfl
        rw [least] at back
        exact (pack_subnormal _ atField).trans back
    · have atField : ((@unpackExponent Format.binary64 word).toNat : Int) -
          ((Format.binary64.exponentBias : Int) + (52 : Nat)) + 1075 =
            (@unpackExponent Format.binary64 word).toNat := by
        change _ - ((1023 : Nat) + (52 : Nat) : Int) + 1075 = _
        omega
      exact (pack_normal _ atField (by omega)).trans back

theorem ofBits_toBits (x : Float) : Float.ofBits x.toBits = x := by
  obtain ⟨⟨word, valid⟩⟩ := x
  have back := pack_unpack valid
  change Float.ofModel ⟨UInt64.ofBitVec (pack Format.binary64 (unpack Format.binary64 word.toBitVec)), _⟩ = _
  congr 2
  rw [back]

theorem toBits_ofBits {word : UInt64} (valid : Format.binary64.Valid word.toBitVec) :
    (Float.ofBits word).toBits = word := by
  change UInt64.ofBitVec (pack Format.binary64 (unpack Format.binary64 word.toBitVec)) = word
  rw [pack_unpack valid]

theorem isFinite_unpack (word : BitVec 64) :
    (unpack Format.binary64 word).isFinite = true ↔ word.toNat / 2 ^ 52 % 2 ^ 11 ≠ 2047 := by
  have field := toNat_unpackExponent word
  have full : @unpackExponent Format.binary64 word = -1#_ ↔ word.toNat / 2 ^ 52 % 2 ^ 11 = 2047 := by
    rw [← BitVec.toNat_inj, field]
    rfl
  unfold unpack
  dsimp only
  rw [← not_iff_not, not_not, ← full]
  split_ifs <;> simp_all [UnpackedFloat.isFinite]

/-- A double is finite exactly if its magnitude bits lie below those of infinity. -/
theorem isFinite_iff (x : Float) : x.isFinite = true ↔ magnitude x < infinityBits := by
  obtain ⟨⟨word, valid⟩⟩ := x
  have bound := word.toNat_lt
  change (unpack Format.binary64 word.toBitVec).isFinite = true ↔ word.toNat % signBit < infinityBits
  rw [isFinite_unpack, UInt64.toNat_toBitVec]
  unfold signBit infinityBits
  omega

theorem not_isNaN_of_isFinite {x : Float} (finite : x.isFinite = true) : x.isNaN = false := by
  change x.toModel.unpack.isFinite = true at finite
  change x.toModel.unpack.isNaN = false
  cases fields : x.toModel.unpack with
  | notANumber =>
    rw [fields] at finite
    exact nomatch finite
  | _ => rfl

theorem not_isInf_of_isFinite {x : Float} (finite : x.isFinite = true) : x.isInf = false := by
  change x.toModel.unpack.isFinite = true at finite
  change x.toModel.unpack.isInf = false
  cases fields : x.toModel.unpack with
  | infinity =>
    rw [fields] at finite
    exact nomatch finite
  | _ => rfl

theorem isNegative_eq_false_iff {x : Float} : isNegative x = false ↔ x.toBits.toNat < signBit := by
  rw [isNegative, decide_eq_false_iff_not, Nat.not_le]

/-- The bits of a double are its magnitude bits, with the sign bit if it is negative. -/
theorem toNat_toBits (x : Float) : x.toBits.toNat = (if isNegative x then signBit else 0) + magnitude x := by
  have bound := x.toBits.toNat_lt
  unfold magnitude
  cases sign : isNegative x with
  | false =>
    have below := isNegative_eq_false_iff.1 sign
    simp only [Bool.false_eq_true, if_false, Nat.zero_add, Nat.mod_eq_of_lt below]
  | true =>
    have above := decide_eq_true_iff.1 sign
    simp only [if_true]
    unfold signBit at *
    omega

theorem ofMagnitude_self (x : Float) : ofMagnitude (isNegative x) (magnitude x) = x := by
  have bits := toNat_toBits x
  have word : (if isNegative x then signBit + magnitude x else magnitude x) = x.toBits.toNat := by
    cases sign : isNegative x <;> simp_all
  rw [ofMagnitude, word, UInt64.ofNat_toNat, ofBits_toBits]

theorem toBits_ofMagnitude {bits : Nat} (negative : Bool) (bound : bits ≤ infinityBits) :
    (ofMagnitude negative bits).toBits.toNat = (if negative then signBit else 0) + bits := by
  have small : bits < signBit := by
    unfold infinityBits at bound
    unfold signBit
    omega
  have word : (UInt64.ofNat (if negative then signBit + bits else bits)).toNat =
      (if negative then signBit else 0) + bits := by
    rw [UInt64.toNat_ofNat']
    cases negative <;> simp only [Bool.false_eq_true, if_false, if_true] <;> unfold signBit at * <;> omega
  have valid : Format.binary64.Valid (UInt64.ofNat (if negative then signBit + bits else bits)).toBitVec := by
    refine ⟨fun full filled => ?_⟩
    have exponent := congrArg BitVec.toNat full
    have mantissa : (@unpackMantissa Format.binary64
        (UInt64.ofNat (if negative then signBit + bits else bits)).toBitVec).toNat ≠ 0 :=
      fun zero => filled (BitVec.eq_of_toNat_eq zero)
    rw [toNat_unpackMantissa, UInt64.toNat_toBitVec, word] at mantissa
    rw [toNat_unpackExponent, UInt64.toNat_toBitVec, word] at exponent
    change _ = 2047 at exponent
    cases negative <;> simp only [Bool.false_eq_true, if_false, if_true] at * <;>
      unfold signBit infinityBits at * <;> omega
  rw [ofMagnitude, toBits_ofBits valid, word]

theorem isNegative_ofMagnitude {bits : Nat} (negative : Bool) (bound : bits ≤ infinityBits) :
    isNegative (ofMagnitude negative bits) = negative := by
  have word := toBits_ofMagnitude negative bound
  unfold isNegative
  rw [word]
  unfold infinityBits at bound
  unfold signBit
  cases negative <;> simp
  omega

theorem magnitude_ofMagnitude {bits : Nat} (negative : Bool) (bound : bits ≤ infinityBits) :
    magnitude (ofMagnitude negative bits) = bits := by
  have word := toBits_ofMagnitude negative bound
  unfold magnitude
  rw [word]
  unfold infinityBits at bound
  unfold signBit
  cases negative <;> simp <;> omega

theorem isFinite_ofMagnitude {bits : Nat} (negative : Bool) (bound : bits ≤ infinityBits) :
    (ofMagnitude negative bits).isFinite = true ↔ bits < infinityBits := by
  rw [isFinite_iff, magnitude_ofMagnitude negative bound]

theorem ofMagnitude_inj {a b : Nat} {p q : Bool} (ha : a ≤ infinityBits) (hb : b ≤ infinityBits) :
    ofMagnitude p a = ofMagnitude q b ↔ p = q ∧ a = b := by
  constructor
  · intro same
    have signs := congrArg isNegative same
    have sizes := congrArg magnitude same
    rw [isNegative_ofMagnitude p ha, isNegative_ofMagnitude q hb] at signs
    rw [magnitude_ofMagnitude p ha, magnitude_ofMagnitude q hb] at sizes
    exact ⟨signs, sizes⟩
  · rintro ⟨rfl, rfl⟩
    rfl

end Reckoner.Double
