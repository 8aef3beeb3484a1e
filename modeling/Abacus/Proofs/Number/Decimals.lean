import Abacus.Number.Reading
import Abacus.Proofs.Number.Bits

/-!
# Decimals are rounded correctly

A decimal is read as the number it rounds to, infinity standing for all numbers beyond the largest
(`ofDecimal_of_roundsTo`). The decimals that are not looked at closely are no exception: they lie
beyond the largest number, or below half the smallest.
-/

namespace Abacus.Number

variable {b digits : Nat} {exponent : Int}

theorem withBits_zero : withBits false 0 = 0 := by decide +kernel

theorem withBits_infinity : withBits false infinityBits = infinity := by decide +kernel

theorem bitsValue_infinity : bitsValue infinityBits = 2 ^ (1024 : Int) := by
  have hbits : infinityBits = 2046 * twoTo 52 + twoTo 52 := rfl
  have hparts : IsParts 2046 (twoTo 52) :=
    ⟨by rw [twoTo_52, twoTo_53]; omega, .inr (Nat.le_refl _)⟩
  rw [hbits, bitsValue_parts hparts, cast_twoTo, ← zpow_natCast, ← zpow_add₀ (by norm_num)]
  rfl

theorem bitsMiddle_zero : bitsMiddle 0 = 2 ^ (-1075 : Int) := by
  have hparts : IsParts 0 0 := ⟨Nat.zero_le _, .inl rfl⟩
  have hmiddle := bitsMiddle_parts hparts (twoTo_pos _)
  simpa using hmiddle

/-- Digits are fewer than their number of places allows. -/
theorem lt_tenTo_places (digits : Nat) : digits < tenTo (digits.log2 / 3 + 1) := by
  have hpower : (2 ^ 3) ^ (digits.log2 / 3 + 1) ≤ tenTo (digits.log2 / 3 + 1) :=
    Nat.pow_le_pow_left (by decide) _
  refine lt_of_lt_of_le Nat.lt_log2_self (le_trans ?_ hpower)
  rw [← Nat.pow_mul]
  exact Nat.pow_le_pow_right (by decide) (by omega)

/-- A decimal as a fraction of two whole numbers. -/
theorem decimal_eq_div (digits : Nat) (exponent : Int) : (digits * 10 ^ exponent : ℚ) =
    (digits * tenTo exponent.toNat : Nat) / (tenTo (-exponent).toNat : Nat) := by
  rw [zpow_eq_div]
  push_cast [cast_tenTo]
  ring

/-- Decimals with large exponents lie beyond the largest number. -/
theorem infinityBits_le (h : RoundsTo (digits * 10 ^ exponent) b) (hne : digits ≠ 0)
    (hlarge : 400 < exponent) : infinityBits ≤ b := by
  have hdigits : (1 : ℚ) ≤ digits := by exact_mod_cast Nat.one_le_iff_ne_zero.mpr hne
  have hpower : (10 : ℚ) ^ (-exponent) ≤ 2 ^ (-1024 : Int) :=
    ten_zpow_le_two_zpow (by omega) (by omega)
  rw [zpow_neg, zpow_neg, inv_le_inv₀ (by positivity) (by positivity)] at hpower
  refine (roundsTo_bitsValue infinityBits).le h ?_
  rw [bitsValue_infinity]
  exact hpower.trans (le_mul_of_one_le_left (by positivity) hdigits)

/-- Decimals whose first digit stands far behind the point lie below half the smallest number. -/
theorem eq_zero_of_small (h : RoundsTo (digits * 10 ^ exponent) b)
    (hsmall : ((digits.log2 / 3 + 1 : Nat) : Int) + exponent < -400) : b = 0 := by
  have hplaces : (digits : ℚ) < 10 ^ (digits.log2 / 3 + 1) := by
    exact_mod_cast lt_tenTo_places digits
  have hlt : (digits * 10 ^ exponent : ℚ) < bitsMiddle 0 :=
    calc (digits * 10 ^ exponent : ℚ)
        < 10 ^ (digits.log2 / 3 + 1) * 10 ^ exponent :=
          mul_lt_mul_of_pos_right hplaces (by positivity)
      _ = 10 ^ (((digits.log2 / 3 + 1 : Nat) : Int) + exponent) := by
          rw [zpow_add₀ (by norm_num), zpow_natCast]
      _ ≤ 2 ^ (-1075 : Int) := ten_zpow_le_two_zpow (by omega) (by omega)
      _ = bitsMiddle 0 := bitsMiddle_zero.symm
  exact h.unique ⟨fun _ hc => absurd hc (Nat.succ_ne_zero _), .inl hlt⟩

/-- A decimal is read as the number that it rounds to. -/
theorem ofDecimal_of_roundsTo (h : RoundsTo (digits * 10 ^ exponent) b) :
    ofDecimal digits exponent = withBits false (min b infinityBits) := by
  unfold ofDecimal
  dsimp only
  split
  · rename_i hzero
    rw [hzero, Nat.cast_zero, zero_mul, ← bitsValue_zero] at h
    rw [h.unique (roundsTo_bitsValue 0), Nat.zero_min, withBits_zero]
  · rename_i hne
    split
    · rename_i hlarge
      rw [min_eq_right (infinityBits_le h hne hlarge), withBits_infinity]
    · split
      · rename_i hsmall
        rw [eq_zero_of_small h hsmall, Nat.zero_min, withBits_zero]
      · rw [decimal_eq_div] at h
        rw [nearest_eq, nearestBits_of_roundsTo (tenTo_pos _) h]
        rfl

/-- What a decimal is read as has no sign. -/
theorem exists_ofDecimal (digits : Nat) (exponent : Int) :
    ∃ b ≤ infinityBits, ofDecimal digits exponent = withBits false b := by
  obtain ⟨b, hb, -⟩ := @exists_roundsTo (digits * tenTo exponent.toNat) _
    (tenTo_pos (-exponent).toNat)
  rw [← decimal_eq_div] at hb
  exact ⟨_, min_le_right _ _, ofDecimal_of_roundsTo hb⟩

end Abacus.Number
