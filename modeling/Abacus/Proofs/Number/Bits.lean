import Abacus.Number.Dyadic
import Abacus.Proofs.Number.Nearest
import Mathlib

/-!
# Numbers and their bits

A number is determined by its sign and by its bits without the sign (`withBits`), these up to those
of infinity; all numbers have this form but what is no number (`exists_withBits`). The bits are
taken apart into the digits and the scale that `bitsValue` reads (`ofFloat?_withBits`), the sign is
changed by itself (`neg_withBits`), and numbers without a sign compare as their bits do
(`withBits_le_iff`).
-/

namespace Abacus.Number

open Float.Model (UnpackedFloat)
open Float.Model.UnpackedFloat (Sign unpackMantissa unpackExponent unpackSign isNaNBits)

/-- The bits with a sign. -/
def signedBits (negative : Bool) (b : Nat) : Nat := (if negative then twoTo 63 else 0) + b

/-- The number with a sign and the bits `b`. -/
def withBits (negative : Bool) (b : Nat) : Float := Float.ofBits (signedBits negative b).toUInt64

/-- The bits of infinity. Smaller ones are those of the finite numbers. -/
def infinityBits : Nat := 2047 * twoTo 52

theorem infinityBits_eq : infinityBits = 9218868437227405312 := rfl

theorem twoTo_63 : twoTo 63 = 9223372036854775808 := rfl

theorem nearest_eq (negative : Bool) (n d : Nat) :
    nearest negative n d = withBits negative (nearestBits n d) := rfl

/-! ## Taking bits apart -/

section Unpack

variable {negative : Bool} {b c : Nat}

/-- A sign and bits up to those of infinity are a word of sixty-four bits. -/
theorem signedBits_lt (negative : Bool) (h : b ≤ infinityBits) :
    signedBits negative b < 2 ^ 64 := by
  rw [infinityBits_eq] at h
  rw [signedBits, twoTo_63]
  split <;> omega

/-- The bits of the exponent are not touched by the sign. -/
theorem signedBits_div (negative : Bool) (h : b ≤ infinityBits) :
    signedBits negative b / twoTo 52 % twoTo 11 = b / twoTo 52 := by
  rw [infinityBits_eq] at h
  rw [signedBits, twoTo_63, twoTo_52]
  change _ % 2048 = _
  split <;> omega

/-- The bits of the fraction are not touched by the sign. -/
theorem signedBits_mod (negative : Bool) (b : Nat) :
    signedBits negative b % twoTo 52 = b % twoTo 52 := by
  rw [signedBits, twoTo_63, twoTo_52]
  split <;> omega

/-- The first bit is the sign. -/
theorem twoTo_63_le_signedBits (negative : Bool) (h : b ≤ infinityBits) :
    twoTo 63 ≤ signedBits negative b ↔ negative = true := by
  rw [infinityBits_eq] at h
  rw [signedBits, twoTo_63]
  cases negative with
  | true => simp
  | false => simp; omega

/-- The bits as a vector. -/
def bitVec (negative : Bool) (b : Nat) : BitVec 64 := (signedBits negative b).toUInt64.toBitVec

theorem toNat_bitVec (negative : Bool) (h : b ≤ infinityBits) :
    (bitVec negative b).toNat = signedBits negative b :=
  Nat.mod_eq_of_lt (signedBits_lt negative h)

theorem toNat_unpackMantissa (v : BitVec 64) :
    (@unpackMantissa .binary64 v).toNat = v.toNat % twoTo 52 := by
  rw [UnpackedFloat.unpackMantissa_def, BitVec.extractLsb'_toNat, Nat.shiftRight_zero]
  rfl

theorem toNat_unpackExponent (v : BitVec 64) :
    (@unpackExponent .binary64 v).toNat = v.toNat / twoTo 52 % twoTo 11 := by
  rw [UnpackedFloat.unpackExponent_def, BitVec.extractLsb'_toNat, Nat.shiftRight_eq_div_pow]
  rfl

/-- The fraction that is unpacked are the last fifty-two bits. -/
theorem toNat_unpackMantissa_bitVec (negative : Bool) (h : b ≤ infinityBits) :
    (@unpackMantissa .binary64 (bitVec negative b)).toNat = b % twoTo 52 := by
  rw [toNat_unpackMantissa, toNat_bitVec negative h, signedBits_mod]

/-- The exponent that is unpacked are the bits above the fraction. -/
theorem toNat_unpackExponent_bitVec (negative : Bool) (h : b ≤ infinityBits) :
    (@unpackExponent .binary64 (bitVec negative b)).toNat = b / twoTo 52 := by
  rw [toNat_unpackExponent, toNat_bitVec negative h, signedBits_div negative h]

/-- A sign as the sign of an unpacked number. -/
def signOf (negative : Bool) : Sign := if negative then .negative else .positive

/-- The sign that is unpacked is the one that was given. -/
theorem ofBitVec_unpackSign (negative : Bool) (h : b ≤ infinityBits) :
    Sign.ofBitVec (@unpackSign .binary64 (bitVec negative b)) = signOf negative := by
  have hsign : @unpackSign .binary64 (bitVec negative b) = (signOf negative).toBitVec := by
    apply BitVec.eq_of_toNat_eq
    rw [UnpackedFloat.unpackSign_def, BitVec.extractLsb'_toNat, Nat.shiftRight_eq_div_pow,
      toNat_bitVec negative h, signedBits, twoTo_63]
    rw [infinityBits_eq] at h
    change _ / 9223372036854775808 % 2 = _
    cases negative with
    | true =>
      rw [if_pos rfl]
      change _ = 1
      omega
    | false =>
      rw [if_neg Bool.false_ne_true]
      change _ = 0
      omega
  rw [hsign, Sign.ofBitVec_toBitVec]

theorem scale_lt (h : b < infinityBits) : b / twoTo 52 < 2047 :=
  Nat.div_lt_of_lt_mul (by rwa [Nat.mul_comm])

/-- The exponent is the largest one exactly for infinity. -/
theorem unpackExponent_eq_iff (negative : Bool) (h : b ≤ infinityBits) :
    @unpackExponent .binary64 (bitVec negative b) = -1#_ ↔ b = infinityBits := by
  rw [← BitVec.toNat_inj, toNat_unpackExponent_bitVec negative h]
  change _ = 2047 ↔ _
  rw [twoTo_52]
  rw [infinityBits_eq] at *
  omega

/-- Zero is unpacked as a zero with its sign. -/
theorem unpack_zero (negative : Bool) :
    UnpackedFloat.unpack .binary64 (bitVec negative 0) = .zero (signOf negative) := by
  cases negative <;> rfl

/-- The bits of a finite number other than zero. -/
theorem unpack_finite (negative : Bool) (h0 : 0 < b) (h : b < infinityBits) :
    ∃ hm, UnpackedFloat.unpack .binary64 (bitVec negative b) =
      .finite (signOf negative) (bitsMantissa b) ((bitsScale b : Int) - 1074) hm := by
  have hscale := toNat_unpackExponent_bitVec negative h.le
  have hfraction := toNat_unpackMantissa_bitVec negative h.le
  have hne := mt (unpackExponent_eq_iff negative h.le).mp h.ne
  have hlt := scale_lt h
  simp only [UnpackedFloat.unpack, if_neg hne, ofBitVec_unpackSign negative h.le]
  rw [twoTo_52] at hscale hfraction hlt
  -- With no exponent the number is subnormal: its fraction is all of its mantissa.
  by_cases hzero : @unpackExponent .binary64 (bitVec negative b) = 0#_
  · have hsmall : b / 4503599627370496 = 0 := by rw [← hscale, hzero]; rfl
    have hmantissa : bitsMantissa b = b := by
      rw [bitsMantissa, bitsScale, twoTo_52]; omega
    have hne : ¬ @unpackMantissa .binary64 (bitVec negative b) = 0#_ := by
      intro heq
      rw [heq] at hfraction
      change 0 = _ at hfraction
      omega
    rw [if_pos hzero, dif_neg hne]
    refine ⟨by rwa [hmantissa], ?_⟩
    congr 1
    · rw [hfraction, hmantissa]; omega
    · rw [hscale, hsmall, bitsScale, twoTo_52, hsmall]; rfl
  · -- With an exponent there is a leading one in front of the fraction.
    have hlarge : b / 4503599627370496 ≠ 0 := by
      intro heq
      exact hzero (BitVec.eq_of_toNat_eq (hscale.trans heq))
    have hmantissa : bitsMantissa b = 4503599627370496 + b % 4503599627370496 := by
      rw [bitsMantissa, bitsScale, twoTo_52]; omega
    rw [if_neg hzero]
    refine ⟨by rw [hmantissa]; omega, ?_⟩
    congr 1
    · rw [BitVec.toNat_append, ← Nat.shiftLeft_add_eq_or_of_lt (BitVec.isLt _), hfraction,
        hmantissa]
      rfl
    · rw [hscale, bitsScale, twoTo_52]
      change _ - ((1023 : Int) + 52) = _
      omega

theorem unpackMantissa_infinity (negative : Bool) :
    @unpackMantissa .binary64 (bitVec negative infinityBits) = 0#_ := by
  rw [← BitVec.toNat_inj, toNat_unpackMantissa_bitVec negative (le_refl _)]
  rfl

/-- Infinity is unpacked as infinity with its sign. -/
theorem unpack_infinity (negative : Bool) :
    UnpackedFloat.unpack .binary64 (bitVec negative infinityBits) =
      .infinity (signOf negative) := by
  have hsign := ofBitVec_unpackSign negative (le_refl infinityBits)
  simp only [UnpackedFloat.unpack, (unpackExponent_eq_iff negative (le_refl _)).mpr rfl,
    unpackMantissa_infinity, hsign, ↓reduceIte]

/-! ## The number with given bits -/

/-- The bits of the number with given bits are these bits. -/
theorem toBitVec_withBits (negative : Bool) (h : b ≤ infinityBits) :
    (withBits negative b).toBits.toBitVec = bitVec negative b := by
  have hnumber : @isNaNBits .binary64 (bitVec negative b) = false := by
    rw [isNaNBits, decide_eq_false_iff_not, not_and_not_right,
      unpackExponent_eq_iff negative h]
    rintro rfl
    exact unpackMantissa_infinity negative
  have hpack := @UnpackedFloat.pack_unpack .binary64 (bitVec negative b) (by decide)
  rw [hnumber] at hpack
  exact hpack

theorem toNat_toBits_withBits (negative : Bool) (h : b ≤ infinityBits) :
    (withBits negative b).toBits.toNat = signedBits negative b := by
  rw [← UInt64.toNat_toBitVec, toBitVec_withBits negative h, toNat_bitVec negative h]

/-- Different bits make different numbers. -/
theorem withBits_inj (negative : Bool) (hb : b ≤ infinityBits) (hc : c ≤ infinityBits) :
    withBits negative b = withBits negative c ↔ b = c := by
  refine ⟨fun h => ?_, fun h => h ▸ rfl⟩
  have hbits := toNat_toBits_withBits negative hb
  rw [h, toNat_toBits_withBits negative hc] at hbits
  exact (Nat.add_left_cancel hbits).symm

theorem unpack_withBits (negative : Bool) (h : b ≤ infinityBits) :
    (withBits negative b).toModel.unpack = UnpackedFloat.unpack .binary64 (bitVec negative b) :=
  congrArg (UnpackedFloat.unpack .binary64) (toBitVec_withBits negative h)

/-- Whether the bits are those of zero, of another finite number or of infinity. -/
theorem unpack_withBits_cases (negative : Bool) (h : b ≤ infinityBits) :
    (b = 0 ∧ (withBits negative b).toModel.unpack = .zero (signOf negative)) ∨
    (0 < b ∧ b < infinityBits ∧ ∃ hm, (withBits negative b).toModel.unpack =
      .finite (signOf negative) (bitsMantissa b) ((bitsScale b : Int) - 1074) hm) ∨
    (b = infinityBits ∧ (withBits negative b).toModel.unpack = .infinity (signOf negative)) := by
  rw [unpack_withBits negative h]
  rcases Nat.eq_zero_or_pos b with rfl | h0
  · exact .inl ⟨rfl, unpack_zero negative⟩
  rcases h.lt_or_eq with hlt | rfl
  · exact .inr (.inl ⟨h0, hlt, unpack_finite negative h0 hlt⟩)
  · exact .inr (.inr ⟨rfl, unpack_infinity negative⟩)

/-- No bits up to those of infinity are no number. -/
theorem isNaN_withBits (negative : Bool) (h : b ≤ infinityBits) :
    (withBits negative b).isNaN = false := by
  change (withBits negative b).toModel.unpack.isNaN = false
  rcases unpack_withBits_cases negative h with ⟨-, hb⟩ | ⟨-, -, hm, hb⟩ | ⟨-, hb⟩
  · rw [hb]
    rfl
  · rw [hb]
    rfl
  · rw [hb]
    rfl

/-- Changing the sign leaves the bits without it. -/
theorem neg_withBits (h : b ≤ infinityBits) : -withBits false b = withBits true b := by
  have hneg : (withBits false b).toModel.unpack.neg =
      UnpackedFloat.unpack .binary64 (bitVec true b) := by
    rw [← unpack_withBits true h]
    rcases unpack_withBits_cases false h with ⟨rfl, hb⟩ | ⟨h0, hlt, hm, hb⟩ | ⟨rfl, hb⟩
    · rw [hb, unpack_withBits true h, unpack_zero]
      rfl
    · obtain ⟨hm', hb'⟩ := unpack_finite true h0 hlt
      rw [hb, unpack_withBits true h, hb']
      rfl
    · rw [hb, unpack_withBits true h, unpack_infinity]
      rfl
  exact congrArg (fun u => Float.ofModel (Float.Model.pack u)) hneg

/-- All numbers have a sign and bits but what is no number. -/
theorem exists_withBits {x : Float} (h : x.isNaN = false) :
    ∃ negative b, b ≤ infinityBits ∧ x = withBits negative b := by
  have hbound : x.toBits.toNat < 18446744073709551616 := x.toBits.toNat_lt
  have hsigned : signedBits (twoTo 63 ≤ x.toBits.toNat) (x.toBits.toNat % twoTo 63) =
      x.toBits.toNat := by
    rw [signedBits]
    simp only [decide_eq_true_eq]
    rw [twoTo_63]
    split <;> omega
  refine ⟨twoTo 63 ≤ x.toBits.toNat, x.toBits.toNat % twoTo 63, ?_, ?_⟩
  · by_contra hlarge
    rw [infinityBits_eq, twoTo_63] at hlarge
    have hexponent : @unpackExponent .binary64 x.toBits.toBitVec = -1#_ := by
      rw [← BitVec.toNat_inj, toNat_unpackExponent, UInt64.toNat_toBitVec, twoTo_52]
      change _ % 2048 = 2047
      omega
    have hmantissa : @unpackMantissa .binary64 x.toBits.toBitVec ≠ 0#_ := by
      rw [ne_eq, ← BitVec.toNat_inj, toNat_unpackMantissa, UInt64.toNat_toBitVec, twoTo_52]
      change ¬ _ = 0
      omega
    have hunpack : x.toModel.unpack = .notANumber := by
      change UnpackedFloat.unpack .binary64 x.toBits.toBitVec = _
      simp only [UnpackedFloat.unpack, if_pos hexponent, if_neg hmantissa]
    have hnan : x.isNaN = x.toModel.unpack.isNaN := rfl
    rw [hnan, hunpack] at h
    cases h
  · rw [withBits, hsigned]
    change x = Float.ofBits (UInt64.ofNat x.toBits.toNat)
    rw [UInt64.ofNat_toNat, Float.ofBits_toBits]

/-- A number with bits below those of infinity is the mantissa of its bits at their scale. -/
theorem ofFloat?_withBits (negative : Bool) (h : b < infinityBits) :
    Dyadic.ofFloat? (withBits negative b) =
      some ⟨negative, bitsMantissa b, (bitsScale b : Int) - 1074⟩ := by
  unfold Dyadic.ofFloat?
  simp only [toNat_toBits_withBits negative h.le, signedBits_div negative h.le,
    signedBits_mod, if_neg (scale_lt h).ne, twoTo_63_le_signedBits negative h.le,
    Bool.decide_eq_true]
  unfold bitsMantissa bitsScale
  rw [twoTo_52]
  split
  · rename_i hzero
    have hmantissa : b % 4503599627370496 = b := by omega
    rw [hzero, hmantissa]
    rfl
  · rename_i hne
    have hmantissa : 4503599627370496 + b % 4503599627370496 =
        b - (b / 4503599627370496 - 1) * 4503599627370496 := by omega
    have hexponent : ((b / 4503599627370496 : Nat) : Int) - 1075 =
        ((b / 4503599627370496 - 1 : Nat) : Int) - 1074 := by omega
    rw [hmantissa, hexponent]

/-- Finite are the numbers with bits below those of infinity. -/
theorem isFinite_withBits (negative : Bool) (h : b ≤ infinityBits) :
    (withBits negative b).isFinite = true ↔ b < infinityBits := by
  change (withBits negative b).toModel.unpack.isFinite = true ↔ _
  rcases unpack_withBits_cases negative h with ⟨rfl, hb⟩ | ⟨-, hlt, hm, hb⟩ | ⟨rfl, hb⟩
  · rw [hb]
    exact iff_of_true rfl (by decide)
  · rw [hb]
    exact iff_of_true rfl hlt
  · rw [hb]
    exact iff_of_false (by simp [UnpackedFloat.isFinite]) (lt_irrefl _)

/-- Scale first and mantissa second is the order of bits. -/
theorem compare_parts (b c : Nat) :
    (compare ((bitsScale b : Int) - 1074) ((bitsScale c : Int) - 1074)).then
      (compare (bitsMantissa b) (bitsMantissa c)) = compare b c := by
  have hb := bits_eq b
  have hc := bits_eq c
  have hbm := bitsMantissa_lt b
  have hcm := bitsMantissa_lt c
  have hbn := (isParts_bits b).normal
  have hcn := (isParts_bits c).normal
  rw [twoTo_52] at hb hc hbn hcn
  rw [twoTo_53] at hbm hcm
  rcases lt_trichotomy (bitsScale b) (bitsScale c) with h | h | h
  · rw [compare_lt_iff_lt.mpr (by omega), compare_lt_iff_lt.mpr (by omega : b < c)]
    rfl
  · rw [h, compare_eq_iff_eq.mpr rfl, Ordering.eq_then]
    rcases lt_trichotomy (bitsMantissa b) (bitsMantissa c) with hm | hm | hm
    · rw [compare_lt_iff_lt.mpr hm, compare_lt_iff_lt.mpr (by omega : b < c)]
    · rw [compare_eq_iff_eq.mpr hm, compare_eq_iff_eq.mpr (by omega : b = c)]
    · rw [compare_gt_iff_gt.mpr hm, compare_gt_iff_gt.mpr (by omega : c < b)]
  · rw [compare_gt_iff_gt.mpr (by omega), compare_gt_iff_gt.mpr (by omega : c < b)]
    rfl

/-- Numbers without a sign compare as their bits do. -/
theorem compare_withBits (hb : b ≤ infinityBits) (hc : c ≤ infinityBits) :
    (withBits false b).toModel.unpack.compare (withBits false c).toModel.unpack =
      some (compare b c) := by
  have hpos : 0 < infinityBits := by decide
  rcases unpack_withBits_cases false hb with ⟨rfl, hb⟩ | ⟨hb0, hblt, hm, hb⟩ | ⟨rfl, hb⟩
  · rw [hb]
    rcases unpack_withBits_cases false hc with ⟨rfl, hc⟩ | ⟨hc0, -, hm, hc⟩ | ⟨rfl, hc⟩
    · rw [hc]
      rfl
    · rw [hc, compare_lt_iff_lt.mpr hc0]
      rfl
    · rw [hc]
      rfl
  · rw [hb]
    rcases unpack_withBits_cases false hc with ⟨rfl, hc⟩ | ⟨hc0, -, hm', hc⟩ | ⟨rfl, hc⟩
    · rw [hc, compare_gt_iff_gt.mpr hb0]
      rfl
    · rw [hc]
      exact congrArg some (compare_parts b c)
    · rw [hc, compare_lt_iff_lt.mpr hblt]
      rfl
  · rw [hb]
    rcases unpack_withBits_cases false hc with ⟨rfl, hc⟩ | ⟨-, hclt, hm, hc⟩ | ⟨rfl, hc⟩
    · rw [hc]
      rfl
    · rw [hc, compare_gt_iff_gt.mpr hclt]
      rfl
    · rw [hc]
      rfl

/-- Numbers without a sign are ordered as their bits. -/
theorem withBits_le_iff (hb : b ≤ infinityBits) (hc : c ≤ infinityBits) :
    withBits false b ≤ withBits false c ↔ b ≤ c := by
  have hle : withBits false b ≤ withBits false c ↔
      (withBits false b).toModel.unpack.le (withBits false c).toModel.unpack = true :=
    decide_eq_true_iff
  rw [hle, UnpackedFloat.le, compare_withBits hb hc, Option.any_some, Nat.isLE_compare]

end Unpack

end Abacus.Number
