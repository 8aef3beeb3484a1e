import Abacus.Number.Nearest
import Mathlib.Algebra.Order.Field.Power
import Mathlib.Algebra.Order.Field.Rat
import Mathlib.Data.Nat.Log
import Mathlib.Order.Monotone.Basic
import Mathlib.Tactic.FieldSimp
import Mathlib.Tactic.Linarith
import Mathlib.Tactic.Positivity
import Mathlib.Tactic.Ring

/-!
# The nearest number

The bits of numbers without a sign are in the order of their values (`strictMono_bitsValue`), so the
fractions that round to one number are those between the middles to its two neighbours, a middle
itself going to the number with even bits (`RoundsTo`). `nearestBits` gives the bits of the number
that a fraction rounds to (`nearestBits_of_roundsTo`), and larger fractions round to larger numbers
(`RoundsTo.le`).
-/

namespace Abacus.Number

/-! ## Powers -/

@[simp] theorem cast_twoTo (n : Nat) : ((twoTo n : Nat) : ℚ) = 2 ^ n :=
  Nat.cast_pow 2 n

@[simp] theorem cast_tenTo (n : Nat) : ((tenTo n : Nat) : ℚ) = 10 ^ n :=
  Nat.cast_pow 10 n

theorem twoTo_pos (n : Nat) : 0 < twoTo n := Nat.pow_pos (by decide)

theorem tenTo_pos (n : Nat) : 0 < tenTo n := Nat.pow_pos (by decide)

/-- A power as a fraction of two powers, one of them `1`. -/
theorem zpow_eq_div (b : ℚ) (k : Int) : b ^ k = b ^ k.toNat / b ^ (-k).toNat := by
  obtain ⟨n, rfl | rfl⟩ := k.eq_nat_or_neg
  · simp
  · simp

/-- A power of ten is at most a power of two if its exponent is at most `3 / 10` of the other one,
and `28 / 93` of it where both are negative. -/
theorem ten_zpow_le_two_zpow {k j : Int} (hpos : 10 * k ≤ 3 * j) (hneg : 93 * k ≤ 28 * j) :
    (10 : ℚ) ^ k ≤ 2 ^ j := by
  rcases le_total 0 k with hk | hk
  · have h : ((10 : ℚ) ^ k) ^ 3 ≤ (2 ^ j) ^ 3 :=
      calc ((10 : ℚ) ^ k) ^ 3 = (10 ^ 3) ^ k := by
            rw [← zpow_natCast, zpow_comm, zpow_natCast]
        _ ≤ (2 ^ 10) ^ k := zpow_le_zpow_left₀ hk (by norm_num) (by norm_num)
        _ = 2 ^ (10 * k) := by rw [zpow_mul]; norm_cast
        _ ≤ 2 ^ (j * 3) := zpow_le_zpow_right₀ (by norm_num) (by omega)
        _ = (2 ^ j) ^ 3 := by rw [zpow_mul]; norm_cast
    exact le_of_pow_le_pow_left₀ (by decide) (by positivity) h
  · have h : ((10 : ℚ) ^ k) ^ 28 ≤ (2 ^ j) ^ 28 :=
      calc ((10 : ℚ) ^ k) ^ 28 = (10 ^ 28) ^ k := by
            rw [← zpow_natCast, zpow_comm, zpow_natCast]
        _ ≤ (2 ^ 93) ^ k := by
            rw [← neg_neg k, zpow_neg, zpow_neg (2 ^ 93 : ℚ)]
            exact inv_anti₀ (by positivity)
              (zpow_le_zpow_left₀ (neg_nonneg.mpr hk) (by norm_num) (by norm_num))
        _ = 2 ^ (93 * k) := by rw [zpow_mul]; norm_cast
        _ ≤ 2 ^ (j * 28) := zpow_le_zpow_right₀ (by norm_num) (by omega)
        _ = (2 ^ j) ^ 28 := by rw [zpow_mul]; norm_cast
    exact le_of_pow_le_pow_left₀ (by decide) (by positivity) h

/-! ## The values of bits -/

/-- How often the unit of the digits of the number is twice the least one. -/
def bitsScale (b : Nat) : Nat := b / twoTo 52 - 1

/-- The digits of the number with the bits `b`, as a whole number. -/
def bitsMantissa (b : Nat) : Nat := b - bitsScale b * twoTo 52

/-- The number with the bits `b`, if these have no sign and were there no largest number. -/
def bitsValue (b : Nat) : ℚ := bitsMantissa b * 2 ^ ((bitsScale b : Int) - 1074)

/-- The middle between the number with the bits `b` and the next larger one. -/
def bitsMiddle (b : Nat) : ℚ := (bitsValue b + bitsValue (b + 1)) / 2

/-- The digits `m` in units of the scale `s` are those of a number, or of the power of two behind
the numbers of that scale. -/
structure IsParts (s m : Nat) : Prop where
  le : m ≤ twoTo 53
  normal : s = 0 ∨ twoTo 52 ≤ m

theorem twoTo_52 : twoTo 52 = 4503599627370496 := rfl

theorem twoTo_53 : twoTo 53 = 9007199254740992 := rfl

section Values

variable {b c s m : Nat} {x y : ℚ}

theorem isParts_bits (b : Nat) : IsParts (bitsScale b) (bitsMantissa b) := by
  constructor
  · unfold bitsMantissa bitsScale
    rw [twoTo_52, twoTo_53]
    omega
  · unfold bitsMantissa bitsScale
    rw [twoTo_52]
    omega

theorem bits_eq (b : Nat) : b = bitsScale b * twoTo 52 + bitsMantissa b := by
  unfold bitsMantissa bitsScale
  rw [twoTo_52]
  omega

theorem bitsMantissa_lt (b : Nat) : bitsMantissa b < twoTo 53 := by
  unfold bitsMantissa bitsScale
  rw [twoTo_52, twoTo_53]
  omega

/-- The value of bits from their parts, in one way for each number but the powers of two. -/
theorem bitsValue_parts (h : IsParts s m) :
    bitsValue (s * twoTo 52 + m) = m * 2 ^ ((s : Int) - 1074) := by
  obtain ⟨hle, hnormal⟩ := h
  rw [twoTo_53] at hle
  rw [twoTo_52] at hnormal
  rcases Nat.lt_or_eq_of_le hle with hlt | rfl
  · have hscale : bitsScale (s * twoTo 52 + m) = s := by
      unfold bitsScale
      rw [twoTo_52]
      omega
    rw [bitsValue, bitsMantissa, hscale, Nat.add_sub_cancel_left]
  · have hscale : bitsScale (s * twoTo 52 + 9007199254740992) = s + 1 := by
      unfold bitsScale
      rw [twoTo_52]
      omega
    have hmantissa : bitsMantissa (s * twoTo 52 + 9007199254740992) = 4503599627370496 := by
      rw [bitsMantissa, hscale, twoTo_52]
      omega
    have hpower : ((s + 1 : Nat) : Int) - 1074 = (s : Int) - 1074 + 1 := by omega
    rw [bitsValue, hmantissa, hscale, hpower, zpow_add_one₀ (by norm_num)]
    push_cast
    ring

theorem bitsValue_zero : bitsValue 0 = 0 := by simp [bitsValue, bitsMantissa]

theorem bitsValue_succ (b : Nat) :
    bitsValue (b + 1) = bitsValue b + 2 ^ ((bitsScale b : Int) - 1074) := by
  have hnext : IsParts (bitsScale b) (bitsMantissa b + 1) :=
    ⟨bitsMantissa_lt b, (isParts_bits b).normal.imp_right Nat.le_succ_of_le⟩
  have hb : b + 1 = bitsScale b * twoTo 52 + (bitsMantissa b + 1) := by
    rw [← Nat.add_assoc, ← bits_eq]
  rw [hb, bitsValue_parts hnext, bitsValue]
  push_cast
  ring

/-- Larger bits are those of larger numbers. -/
theorem strictMono_bitsValue : StrictMono bitsValue := by
  refine strictMono_nat_of_lt_succ fun b => ?_
  have hpos : (0 : ℚ) < 2 ^ ((bitsScale b : Int) - 1074) := by positivity
  rw [bitsValue_succ]
  linarith

theorem strictMono_bitsMiddle : StrictMono bitsMiddle := by
  refine strictMono_nat_of_lt_succ fun b => ?_
  have h₁ := strictMono_bitsValue (Nat.lt_succ_self b)
  have h₂ := strictMono_bitsValue (Nat.lt_succ_self (b + 1))
  unfold bitsMiddle
  simp only [Nat.succ_eq_add_one] at h₁ h₂
  linarith

theorem bitsMiddle_lt (b : Nat) : bitsMiddle b < bitsValue (b + 1) := by
  have h := strictMono_bitsValue (Nat.lt_succ_self b)
  rw [Nat.succ_eq_add_one] at h
  unfold bitsMiddle
  linarith

theorem lt_bitsMiddle (b : Nat) : bitsValue b < bitsMiddle b := by
  have h := strictMono_bitsValue (Nat.lt_succ_self b)
  rw [Nat.succ_eq_add_one] at h
  unfold bitsMiddle
  linarith

/-- The middle behind a number is half a unit of its digits away. -/
theorem bitsMiddle_parts (h : IsParts s m) (hlt : m < twoTo 53) :
    bitsMiddle (s * twoTo 52 + m) = (2 * m + 1) * 2 ^ ((s : Int) - 1075) := by
  have hnext : IsParts s (m + 1) := ⟨hlt, h.normal.imp_right Nat.le_succ_of_le⟩
  have hpower : (s : Int) - 1074 = (s : Int) - 1075 + 1 := by omega
  rw [bitsMiddle, Nat.add_assoc, bitsValue_parts h, bitsValue_parts hnext, hpower,
    zpow_add_one₀ (by norm_num)]
  push_cast
  ring

theorem IsParts.pred (h : IsParts s (m + 1)) (hne : s = 0 ∨ m + 1 ≠ twoTo 52) : IsParts s m :=
  ⟨Nat.le_of_succ_le h.le, by have := h.normal; omega⟩

/-- The middle in front of a number is as far away, unless the scale begins with the number. -/
theorem bitsMiddle_pred (h : IsParts s (m + 1)) (hne : s = 0 ∨ m + 1 ≠ twoTo 52)
    (hb : b + 1 = s * twoTo 52 + (m + 1)) :
    bitsMiddle b = (2 * m + 1) * 2 ^ ((s : Int) - 1075) := by
  rw [Nat.add_right_cancel (hb.trans (Nat.add_assoc _ _ _).symm)]
  exact bitsMiddle_parts (h.pred hne) h.le

/-- In front of a power of two the numbers lie twice as close. -/
theorem bitsMiddle_pred_power (hb : b + 1 = (s + 1) * twoTo 52 + twoTo 52) :
    bitsMiddle b = (4 * (twoTo 52 : Nat) - 1) * 2 ^ ((s : Int) - 1075) := by
  have hparts : IsParts s (twoTo 53 - 1) :=
    ⟨Nat.sub_le _ _, .inr (by rw [twoTo_52, twoTo_53]; omega)⟩
  have hbits : b = s * twoTo 52 + (twoTo 53 - 1) := by
    rw [twoTo_52] at hb
    rw [twoTo_52, twoTo_53]
    omega
  rw [hbits, bitsMiddle_parts hparts (Nat.sub_lt (twoTo_pos 53) Nat.one_pos), twoTo_52, twoTo_53]
  norm_num

/-! ## Rounding -/

/-- The number with the bits `b` is the one nearest to `x`, of two at the same distance the one with
even bits. -/
structure RoundsTo (x : ℚ) (b : Nat) : Prop where
  lower : ∀ c, c + 1 = b → bitsMiddle c < x ∨ bitsMiddle c = x ∧ b % 2 = 0
  upper : x < bitsMiddle b ∨ x = bitsMiddle b ∧ b % 2 = 0

/-- Larger numbers are nearest to larger numbers. -/
theorem RoundsTo.le (hx : RoundsTo x b) (hy : RoundsTo y c) (h : x ≤ y) : b ≤ c := by
  refine Nat.le_of_not_lt fun hlt => ?_
  obtain ⟨d, rfl⟩ : ∃ d, b = d + 1 := ⟨b - 1, by omega⟩
  have hmono : bitsMiddle c ≤ bitsMiddle d := strictMono_bitsMiddle.monotone (by omega)
  rcases hx.lower d rfl with hlow | ⟨hlow, heven⟩
  · rcases hy.upper with hup | ⟨hup, -⟩ <;> linarith
  · rcases hy.upper with hup | ⟨hup, heven'⟩
    · linarith
    · -- Only one of two neighbours has even bits.
      have hmiddle : bitsMiddle c = bitsMiddle d := le_antisymm hmono (by linarith)
      have hcd := strictMono_bitsMiddle.injective hmiddle
      omega

theorem RoundsTo.unique (hx : RoundsTo x b) (hy : RoundsTo x c) : b = c :=
  Nat.le_antisymm (hx.le hy (le_refl x)) (hy.le hx (le_refl x))

theorem roundsTo_bitsValue (b : Nat) : RoundsTo (bitsValue b) b where
  lower := by
    rintro c rfl
    exact .inl (bitsMiddle_lt c)
  upper := .inl (lt_bitsMiddle b)

/-- Rounding from the parts of the number: the fraction is at most half a unit of the digits away,
and not below the numbers of the scale. -/
theorem roundsTo_parts (h : IsParts s m)
    (hlow : (2 * m - 1) * 2 ^ ((s : Int) - 1075) < x ∨
      (2 * m - 1) * 2 ^ ((s : Int) - 1075) = x ∧ m % 2 = 0)
    (hscale : s = 0 ∨ (twoTo 52 : ℚ) * 2 ^ ((s : Int) - 1074) ≤ x)
    (hup : x < (2 * m + 1) * 2 ^ ((s : Int) - 1075) ∨
      x = (2 * m + 1) * 2 ^ ((s : Int) - 1075) ∧ m % 2 = 0) :
    RoundsTo x (s * twoTo 52 + m) := by
  have heven : (s * twoTo 52 + m) % 2 = m % 2 := by rw [twoTo_52]; omega
  refine ⟨fun c hc => ?_, ?_⟩
  · rw [heven]
    by_cases hm : s = 0 ∨ m ≠ twoTo 52
    · obtain ⟨k, rfl⟩ : ∃ k, m = k + 1 := by
        have hnormal := h.normal
        rw [twoTo_52] at hc hnormal
        exact ⟨m - 1, by omega⟩
      have hcast : (2 * ((k + 1 : Nat) : ℚ) - 1) = 2 * k + 1 := by push_cast; ring
      rwa [hcast, ← bitsMiddle_pred h hm hc] at hlow
    · -- The least digits of a scale: the number itself is not above the fraction.
      obtain ⟨hs, hm⟩ := not_or.mp hm
      have hlt := bitsMiddle_lt c
      rw [hc, bitsValue_parts h, not_ne_iff.mp hm] at hlt
      exact .inl (lt_of_lt_of_le hlt (hscale.resolve_left hs))
  · rw [heven]
    rcases Nat.lt_or_eq_of_le h.le with hlt | heq
    · rwa [bitsMiddle_parts h hlt]
    · -- Behind a power of two the units are larger.
      have hparts : IsParts (s + 1) (twoTo 52) :=
        ⟨by rw [twoTo_52, twoTo_53]; omega, .inr (Nat.le_refl _)⟩
      have hbits : s * twoTo 52 + m = (s + 1) * twoTo 52 + twoTo 52 := by
        rw [heq, twoTo_52, twoTo_53]; omega
      have hmiddle := bitsMiddle_parts hparts (by rw [twoTo_52, twoTo_53]; omega)
      have hpower : ((s + 1 : Nat) : Int) - 1075 = (s : Int) - 1075 + 1 := by omega
      have hdouble : (m : ℚ) = 2 * (twoTo 52 : Nat) := by
        rw [heq, twoTo_52, twoTo_53]; norm_num
      have hpos : (0 : ℚ) < 2 ^ ((s : Int) - 1075) := by positivity
      rw [hbits, hmiddle, hpower, zpow_add_one₀ (by norm_num)]
      rw [hdouble] at hup
      refine .inl ?_
      rcases hup with hup | ⟨hup, -⟩ <;> linarith

/-- The digits of what a fraction is rounded to, from bounds on the fraction. -/
theorem isParts_of_bounds (hlow : (2 * m - 1) * 2 ^ ((s : Int) - 1075) ≤ x)
    (hup : x ≤ (2 * m + 1) * 2 ^ ((s : Int) - 1075))
    (hlt : x < (twoTo 53 : ℚ) * 2 ^ ((s : Int) - 1074))
    (hscale : s = 0 ∨ (twoTo 52 : ℚ) * 2 ^ ((s : Int) - 1074) ≤ x) : IsParts s m := by
  have hpower : (s : Int) - 1074 = (s : Int) - 1075 + 1 := by omega
  have hpos : (0 : ℚ) < 2 ^ ((s : Int) - 1075) := by positivity
  rw [hpower, zpow_add_one₀ (by norm_num), mul_comm ((2 : ℚ) ^ _) 2, ← mul_assoc] at hlt hscale
  constructor
  · have hle : (2 * m - 1 : ℚ) < twoTo 53 * 2 :=
      lt_of_mul_lt_mul_right (lt_of_le_of_lt hlow hlt) hpos.le
    rw [sub_lt_iff_lt_add] at hle
    have hnat : 2 * m < twoTo 53 * 2 + 1 := by exact_mod_cast hle
    omega
  · refine hscale.imp_right fun hscale => ?_
    have hle : (twoTo 52 * 2 : ℚ) ≤ 2 * m + 1 := le_of_mul_le_mul_right (hscale.trans hup) hpos
    have hnat : twoTo 52 * 2 ≤ 2 * m + 1 := by exact_mod_cast hle
    omega

end Values

/-! ## Rounding a fraction -/

section Fraction

variable {n d b : Nat}

/-- `roundDiv` is half a unit away at most, and even where it is that. -/
theorem roundDiv_spec (hd : 0 < d) :
    (2 * n < (2 * roundDiv n d + 1) * d ∨
      2 * n = (2 * roundDiv n d + 1) * d ∧ roundDiv n d % 2 = 0) ∧
    (2 * roundDiv n d * d < 2 * n + d ∨
      2 * roundDiv n d * d = 2 * n + d ∧ roundDiv n d % 2 = 0) := by
  have hn := Nat.div_add_mod' n d
  have hr := Nat.mod_lt n hd
  have hparity := Nat.mod_two_eq_zero_or_one (n / d)
  unfold roundDiv
  dsimp only
  split
  · simp only [Nat.add_mul, Nat.mul_assoc, Nat.one_mul]
    omega
  · split
    · rcases hparity with h | h
      · rw [h, Nat.add_zero]
        simp only [Nat.add_mul, Nat.mul_assoc, Nat.one_mul]
        omega
      · rw [h]
        simp only [Nat.add_mul, Nat.mul_assoc, Nat.one_mul]
        omega
    · simp only [Nat.add_mul, Nat.mul_assoc, Nat.one_mul]
      omega

theorem two_zpow_le_div_iff (hd : 0 < d) (k : Int) :
    (2 : ℚ) ^ k ≤ n / d ↔ d * twoTo k.toNat ≤ n * twoTo (-k).toNat := by
  have hd' : (0 : ℚ) < d := by exact_mod_cast hd
  rw [zpow_eq_div, div_le_div_iff₀ (by positivity) hd', mul_comm ((2 : ℚ) ^ _)]
  exact_mod_cast Iff.rfl

/-- `floorLog` is the exponent of the leading binary digit. -/
theorem floorLog_spec (hn : 0 < n) (hd : 0 < d) :
    (2 : ℚ) ^ floorLog n d ≤ n / d ∧ (n / d : ℚ) < 2 ^ (floorLog n d + 1) := by
  have hd' : (0 : ℚ) < d := by exact_mod_cast hd
  have hnlow : ((2 ^ n.log2 : Nat) : ℚ) ≤ n := by exact_mod_cast Nat.log2_self_le hn.ne'
  have hnup : (n : ℚ) < (2 ^ (n.log2 + 1) : Nat) := by exact_mod_cast Nat.lt_log2_self
  have hdlow : ((2 ^ d.log2 : Nat) : ℚ) ≤ d := by exact_mod_cast Nat.log2_self_le hd.ne'
  have hdup : (d : ℚ) < (2 ^ (d.log2 + 1) : Nat) := by exact_mod_cast Nat.lt_log2_self
  push_cast at hnlow hnup hdlow hdup
  have hlow : (2 : ℚ) ^ ((n.log2 : Int) - d.log2 - 1) ≤ n / d := by
    rw [le_div_iff₀ hd', sub_sub, zpow_sub₀ (by norm_num), zpow_natCast, ← Nat.cast_succ,
      zpow_natCast, div_mul_eq_mul_div, div_le_iff₀ (by positivity)]
    exact mul_le_mul hnlow hdup.le hd'.le (by positivity)
  have hup : (n / d : ℚ) < 2 ^ ((n.log2 : Int) - d.log2 + 1) := by
    rw [div_lt_iff₀ hd', sub_add_eq_add_sub, zpow_sub₀ (by norm_num), zpow_natCast,
      ← Nat.cast_succ, zpow_natCast, div_mul_eq_mul_div, lt_div_iff₀ (by positivity)]
    exact mul_lt_mul hnup hdlow (by positivity) (by positivity)
  rw [floorLog]
  split
  · rename_i h
    exact ⟨(two_zpow_le_div_iff hd _).mpr h, hup⟩
  · rename_i h
    rw [sub_add_cancel]
    exact ⟨hlow, not_le.mp (mt (two_zpow_le_div_iff hd _).mp h)⟩

/-- `roundDiv` of a fraction in units of `2 ^ (s - 1074)`. -/
theorem roundDiv_units (hd : 0 < d) (s : Nat) {x : ℚ} {m : Nat}
    (hx : x = n / d * 2 ^ ((s : Int) - 1074)) (hm : m = roundDiv n d) :
    ((2 * m - 1) * 2 ^ ((s : Int) - 1075) < x ∨
      (2 * m - 1) * 2 ^ ((s : Int) - 1075) = x ∧ m % 2 = 0) ∧
    (x < (2 * m + 1) * 2 ^ ((s : Int) - 1075) ∨
      x = (2 * m + 1) * 2 ^ ((s : Int) - 1075) ∧ m % 2 = 0) := by
  have hd' : (0 : ℚ) < d := by exact_mod_cast hd
  have hpower : (s : Int) - 1074 = (s : Int) - 1075 + 1 := by omega
  have hpos : (0 : ℚ) < 2 ^ ((s : Int) - 1075) := by positivity
  have hunits : x = 2 * n / d * 2 ^ ((s : Int) - 1075) := by
    rw [hx, hpower, zpow_add_one₀ (by norm_num)]
    ring
  have hspec := roundDiv_spec (n := n) hd
  rw [← hm] at hspec
  obtain ⟨hup, hlow⟩ := hspec
  have hlow' : (2 * m - 1 : ℚ) < 2 * n / d ∨ (2 * m - 1 : ℚ) = 2 * n / d ∧ m % 2 = 0 := by
    rw [lt_div_iff₀ hd', eq_div_iff hd'.ne', sub_one_mul, sub_lt_iff_lt_add, sub_eq_iff_eq_add]
    exact_mod_cast hlow
  have hup' : (2 * n / d : ℚ) < 2 * m + 1 ∨ (2 * n / d : ℚ) = 2 * m + 1 ∧ m % 2 = 0 := by
    rw [div_lt_iff₀ hd', div_eq_iff hd'.ne']
    exact_mod_cast hup
  rw [hunits, mul_lt_mul_iff_left₀ hpos, mul_lt_mul_iff_left₀ hpos, mul_left_inj' hpos.ne',
    mul_left_inj' hpos.ne']
  exact ⟨hlow', hup'⟩

/-- A fraction rounds to a number, which is the nearest one up to the largest. -/
theorem exists_roundsTo (hd : 0 < d) :
    ∃ b, RoundsTo (n / d) b ∧ nearestBits n d = min b (2047 * twoTo 52) := by
  rcases Nat.eq_zero_or_pos n with rfl | hn
  · refine ⟨0, ?_, by simp [nearestBits]⟩
    rw [Nat.cast_zero, zero_div, ← bitsValue_zero]
    exact roundsTo_bitsValue 0
  -- The number is measured in units of the last place it can have, which is never below the unit of
  -- the subnormal numbers.
  obtain ⟨s, hs⟩ : ∃ s : Nat, max (floorLog n d - 52) (-1074) = (s : Int) - 1074 :=
    ⟨(max (floorLog n d - 52) (-1074) + 1074).toNat, by omega⟩
  set m := roundDiv (n * twoTo (-((s : Int) - 1074)).toNat) (d * twoTo ((s : Int) - 1074).toNat)
    with hm
  have hd' : (0 : ℚ) < d := by exact_mod_cast hd
  have hx : (n / d : ℚ) = (n * twoTo (-((s : Int) - 1074)).toNat : Nat) /
      (d * twoTo ((s : Int) - 1074).toNat : Nat) * 2 ^ ((s : Int) - 1074) := by
    rw [zpow_eq_div]
    push_cast [cast_twoTo]
    field_simp
  obtain ⟨hmlow, hmup⟩ := roundDiv_units (Nat.mul_pos hd (twoTo_pos _)) s hx hm
  obtain ⟨hlow, hup⟩ := floorLog_spec hn hd
  have hlt : (n / d : ℚ) < twoTo 53 * 2 ^ ((s : Int) - 1074) := by
    rw [cast_twoTo, ← zpow_natCast, ← zpow_add₀ (by norm_num)]
    exact hup.trans_le (zpow_le_zpow_right₀ (by norm_num) (by push_cast; omega))
  -- Above that unit the quotient has all its digits.
  have hscale : s = 0 ∨ (twoTo 52 : ℚ) * 2 ^ ((s : Int) - 1074) ≤ n / d := by
    refine (Nat.eq_zero_or_pos s).imp_right fun hpos => ?_
    have hlog : ((52 : Nat) : Int) + ((s : Int) - 1074) = floorLog n d := by omega
    rwa [cast_twoTo, ← zpow_natCast, ← zpow_add₀ (by norm_num), hlog]
  have hparts : IsParts s m :=
    isParts_of_bounds (by rcases hmlow with h | ⟨h, -⟩ <;> exact h.le)
      (by rcases hmup with h | ⟨h, -⟩ <;> exact h.le) hlt hscale
  refine ⟨_, roundsTo_parts hparts hmlow hscale hmup, ?_⟩
  have hunits : ((s : Int) - 1074 + 1074).toNat = s := by omega
  simp only [nearestBits, if_neg hn.ne', hs, hunits, hm]

/-- The number nearest to a fraction is the one that it rounds to, or infinity. -/
theorem nearestBits_of_roundsTo (hd : 0 < d) (h : RoundsTo (n / d) b) :
    nearestBits n d = min b (2047 * twoTo 52) := by
  obtain ⟨c, hc, heq⟩ := exists_roundsTo (n := n) hd
  rw [heq, hc.unique h]

end Fraction

end Abacus.Number
