import Abacus.Number.Shortest
import Abacus.Proofs.Number.Bits

/-!
# The shortest decimal reads back

The interval that the search for digits looks at holds exactly the decimals that round to the number
(`holds_iff_roundsTo`), and one of the grids of the search has a point in it
(`RoundingInterval.gridPoint?_isSome`). So the decimal found rounds to the number
(`roundsTo_shortest`).
-/

namespace Abacus.Number

/-! ## Decimals as fractions -/

namespace Decimal

/-- The decimal as a fraction. -/
def value (d : Decimal) : ℚ := d.digits * 10 ^ d.exponent

/-- The power of ten that the first digit counts. -/
def leading (d : Decimal) : Int := d.exponent + (Nat.toDigits 10 d.digits).length - 1

/-- The first digit is not zero. -/
theorem ten_zpow_leading_le {d : Decimal} (h : 0 < d.digits) :
    (10 : ℚ) ^ d.leading ≤ d.value := by
  have hpos : 0 < (Nat.toDigits 10 d.digits).length := Nat.length_toDigits_pos
  obtain ⟨n, hn⟩ : ∃ n, (Nat.toDigits 10 d.digits).length = n + 1 :=
    ⟨_, (Nat.succ_pred hpos.ne').symm⟩
  have hle : 10 ^ n ≤ d.digits := by
    cases n with
    | zero => exact h
    | succ n =>
      have hlength := Nat.length_toDigits_le_iff (n := d.digits) (by decide : 1 < 10) n.succ_pos
      rw [hn] at hlength
      exact Nat.not_lt.mp fun hlt => absurd (hlength.mpr hlt) (by omega)
  have hleading : d.leading = n + d.exponent := by
    rw [leading, hn]
    push_cast
    ring
  rw [hleading, zpow_add₀ (by norm_num), zpow_natCast, value]
  exact mul_le_mul_of_nonneg_right (by exact_mod_cast hle) (by positivity)

theorem value_lt_ten_zpow (d : Decimal) : d.value < 10 ^ (d.leading + 1) := by
  have hpos : 0 < (Nat.toDigits 10 d.digits).length := Nat.length_toDigits_pos
  have hlt := (Nat.length_toDigits_le_iff (n := d.digits) (by decide : 1 < 10) hpos).mp (le_refl _)
  have hleading : d.leading + 1 = (Nat.toDigits 10 d.digits).length + d.exponent := by
    rw [leading]
    ring
  rw [hleading, zpow_add₀ (by norm_num), zpow_natCast, value]
  exact mul_lt_mul_of_pos_right (by exact_mod_cast hlt) (by positivity)

theorem value_strip (count : Nat) (d : Decimal) : (d.strip count).value = d.value := by
  induction count generalizing d with
  | zero => rfl
  | succ count ih =>
    rw [strip]
    split
    · rename_i h
      obtain ⟨n, hn⟩ := Nat.dvd_of_mod_eq_zero h
      rw [ih, value, value, hn, Nat.mul_div_cancel_left n (by decide),
        zpow_add_one₀ (by norm_num)]
      push_cast
      ring
    · rfl

theorem strip_pos {d : Decimal} (h : 0 < d.digits) (count : Nat) :
    0 < (d.strip count).digits := by
  induction count generalizing d with
  | zero => exact h
  | succ count ih =>
    rw [strip]
    split
    · exact ih (by dsimp only; omega)
    · exact h

end Decimal

namespace RoundingInterval

variable {i : RoundingInterval} {c : Nat} {k : Int}

/-! ## What the interval holds -/

/-- Both scales are the powers that they stand for, times the same factor. -/
theorem scales_eq (i : RoundingInterval) (k : Int) : ∃ f : ℚ, 0 < f ∧
    (i.binaryScale k : ℚ) = f * 2 ^ i.exponent ∧ (i.decimalScale k : ℚ) = f * 10 ^ k := by
  refine ⟨2 ^ (-i.exponent).toNat * 10 ^ (-k).toNat, by positivity, ?_, ?_⟩
  · rw [zpow_eq_div, binaryScale]
    push_cast [cast_twoTo, cast_tenTo]
    field_simp
  · rw [zpow_eq_div, decimalScale]
    push_cast [cast_twoTo, cast_tenTo]
    field_simp

theorem le_scaled_iff (i : RoundingInterval) (n c : Nat) (k : Int) :
    n * i.binaryScale k ≤ c * i.decimalScale k ↔ (n * 2 ^ i.exponent : ℚ) ≤ c * 10 ^ k := by
  obtain ⟨f, hf, hb, hd⟩ := i.scales_eq k
  rw [← Nat.cast_le (α := ℚ)]
  push_cast
  rw [hb, hd, mul_left_comm, mul_left_comm (c : ℚ), mul_le_mul_iff_right₀ hf]

theorem scaled_le_iff (i : RoundingInterval) (n c : Nat) (k : Int) :
    c * i.decimalScale k ≤ n * i.binaryScale k ↔ (c * 10 ^ k : ℚ) ≤ n * 2 ^ i.exponent := by
  obtain ⟨f, hf, hb, hd⟩ := i.scales_eq k
  rw [← Nat.cast_le (α := ℚ)]
  push_cast
  rw [hb, hd, mul_left_comm, mul_left_comm (n : ℚ), mul_le_mul_iff_right₀ hf]

/-- The interval holds what lies between its ends, and these themselves if it includes them. -/
theorem holds_iff : i.holds c k = true ↔
    ((i.low * 2 ^ i.exponent : ℚ) < c * 10 ^ k ∨
      (i.low * 2 ^ i.exponent : ℚ) = c * 10 ^ k ∧ i.ends = true) ∧
    ((c * 10 ^ k : ℚ) < i.high * 2 ^ i.exponent ∨
      (c * 10 ^ k : ℚ) = i.high * 2 ^ i.exponent ∧ i.ends = true) := by
  unfold holds
  cases i.ends with
  | true =>
    simp only [↓reduceIte, Bool.and_eq_true, decide_eq_true_eq, le_scaled_iff, scaled_le_iff,
      and_true, ← le_iff_lt_or_eq]
  | false =>
    simp only [Bool.false_eq_true, ↓reduceIte, Bool.and_eq_true, decide_eq_true_eq, ← not_le,
      le_scaled_iff, scaled_le_iff, and_false, or_false]

/-! ## The points of a grid -/

/-- What is found on a grid lies in the interval. -/
theorem holds_of_gridPoint? (h : i.gridPoint? k = some c) : i.holds c k = true := by
  unfold gridPoint? at h
  dsimp only at h
  split at h
  · cases h
  · rename_i hbelow _
    cases h
    exact hbelow
  · rename_i habove
    cases h
    exact habove
  · rename_i hbelow habove
    split_ifs at h
    · cases h
      exact hbelow
    · cases h
      rcases Nat.mod_two_eq_zero_or_one (i.value * i.binaryScale k / i.decimalScale k) with hm | hm
      · rwa [hm]
      · rwa [hm]
    · cases h
      exact habove

/-- A grid no coarser than the units of the interval has a point in it. -/
theorem gridPoint?_isSome (hlow : i.low < i.value) (hhigh : i.value + 1 < i.high)
    (hk : (10 : ℚ) ^ k ≤ 2 ^ i.exponent) : (i.gridPoint? k).isSome = true := by
  set below := i.value * i.binaryScale k / i.decimalScale k with hdef
  have hscale : 0 < i.decimalScale k := Nat.mul_pos (twoTo_pos _) (tenTo_pos _)
  have hpos : (0 : ℚ) < 2 ^ i.exponent := by positivity
  have hbelow : (below * 10 ^ k : ℚ) ≤ i.value * 2 ^ i.exponent :=
    (i.scaled_le_iff _ _ k).mp (Nat.div_mul_le_self _ _)
  have habove : (i.value * 2 ^ i.exponent : ℚ) ≤ (below + 1 : Nat) * 10 ^ k :=
    (i.le_scaled_iff _ _ k).mp ((Nat.div_lt_iff_lt_mul hscale).mp (Nat.lt_succ_self below)).le
  have hholds : i.holds (below + 1) k = true := by
    refine holds_iff.mpr ⟨.inl (lt_of_lt_of_le ?_ habove), .inl ?_⟩
    · exact mul_lt_mul_of_pos_right (by exact_mod_cast hlow) hpos
    · calc ((below + 1 : Nat) * 10 ^ k : ℚ) = below * 10 ^ k + 10 ^ k := by push_cast; ring
        _ ≤ i.value * 2 ^ i.exponent + 2 ^ i.exponent := add_le_add hbelow hk
        _ = (i.value + 1 : Nat) * 2 ^ i.exponent := by push_cast; ring
        _ < i.high * 2 ^ i.exponent := mul_lt_mul_of_pos_right (by exact_mod_cast hhigh) hpos
  unfold gridPoint?
  dsimp only
  split
  · rename_i hnone
    rw [← hdef, hholds] at hnone
    cases hnone
  · rfl
  · rfl
  · split_ifs <;> rfl

/-! ## The search -/

theorem gridPoint?_of_search {count : Nat} {d : Decimal} (h : i.search count k = some d) :
    i.gridPoint? d.exponent = some d.digits := by
  induction count generalizing k with
  | zero => cases h
  | succ count ih =>
    rw [search] at h
    split at h
    · rename_i c hc
      cases h
      exact hc
    · exact ih h

/-- The search comes to a grid with a point in the interval if it looks far enough. -/
theorem search_isSome {count n : Nat} (hn : n < count) (h : (i.gridPoint? (k - n)).isSome = true) :
    (i.search count k).isSome = true := by
  induction count generalizing k n with
  | zero => omega
  | succ count ih =>
    rw [search]
    split
    · rfl
    · rename_i hnone
      cases n with
      | zero =>
        rw [Nat.cast_zero, sub_zero, hnone] at h
        cases h
      | succ n =>
        refine ih (Nat.lt_of_succ_lt_succ hn) ?_
        rwa [sub_sub, add_comm, ← Nat.cast_succ]

/-! ## The digits are not all zero -/

theorem holds_zero (hlow : 0 < i.low) (k : Int) : i.holds 0 k = false := by
  have hscale : 0 < i.low * i.binaryScale k :=
    Nat.mul_pos hlow (Nat.mul_pos (twoTo_pos _) (tenTo_pos _))
  simp only [holds, Nat.zero_mul]
  split
  · simp only [Bool.and_eq_false_iff, decide_eq_false_iff_not]
    exact .inl (by omega)
  · simp only [Nat.not_lt_zero, decide_false, Bool.false_and]

theorem search_pos (hlow : 0 < i.low) {count : Nat} {d : Decimal}
    (h : i.search count k = some d) : 0 < d.digits := by
  refine Nat.pos_of_ne_zero fun hzero => ?_
  have hholds := holds_of_gridPoint? (gridPoint?_of_search h)
  rw [hzero, holds_zero hlow] at hholds
  cases hholds

end RoundingInterval

/-- The digits of a positive number are not all zero. -/
theorem shortest_pos {m : Nat} (hm : 0 < m) (e : Int) : 0 < (shortest m e).digits := by
  have hlow : 0 < (RoundingInterval.of m e).low := by
    dsimp only [RoundingInterval.of]
    split <;> omega
  refine Decimal.strip_pos ?_ 24
  cases hs : (RoundingInterval.of m e).search 24
      (((m.log2 : Int) + e + 2) * 30103 / 100000 + 1) with
  | none => exact hm
  | some d => exact RoundingInterval.search_pos hlow hs

/-! ## The interval of a number -/

section Interval

variable {b c : Nat} {k : Int}

/-- The upper end is the middle to the next number. -/
theorem high_of_bits (b : Nat) :
    ((RoundingInterval.of (bitsMantissa b) ((bitsScale b : Int) - 1074)).high : ℚ) *
      2 ^ ((bitsScale b : Int) - 1074 - 2) = bitsMiddle b := by
  have hmiddle := bitsMiddle_parts (isParts_bits b) (bitsMantissa_lt b)
  have hpower : (bitsScale b : Int) - 1075 = (bitsScale b : Int) - 1074 - 2 + 1 := by omega
  rw [← bits_eq, hpower, zpow_add_one₀ (by norm_num)] at hmiddle
  rw [hmiddle, RoundingInterval.of]
  push_cast
  ring

/-- The lower end is the middle to the number before. -/
theorem low_of_bits (c : Nat) :
    ((RoundingInterval.of (bitsMantissa (c + 1)) ((bitsScale (c + 1) : Int) - 1074)).low : ℚ) *
      2 ^ ((bitsScale (c + 1) : Int) - 1074 - 2) = bitsMiddle c := by
  have hbits := bits_eq (c + 1)
  have hparts := isParts_bits (c + 1)
  generalize bitsMantissa (c + 1) = m at *
  generalize bitsScale (c + 1) = s at *
  unfold RoundingInterval.of
  dsimp only
  split
  · -- Below a power of two the gap is half as wide, and the midpoint needs the finer unit.
    rename_i hpower
    rw [Bool.and_eq_true, decide_eq_true_eq, decide_eq_true_eq] at hpower
    obtain ⟨t, rfl⟩ : ∃ t, s = t + 1 := ⟨s - 1, by omega⟩
    have hscale : ((t + 1 : Nat) : Int) - 1074 - 2 = (t : Int) - 1075 := by omega
    rw [hpower.1] at hbits
    rw [bitsMiddle_pred_power hbits, hscale, hpower.1, twoTo_52]
    norm_num
  · rename_i hpower
    rw [Bool.and_eq_true, decide_eq_true_eq, decide_eq_true_eq] at hpower
    obtain ⟨n, rfl⟩ : ∃ n, m = n + 1 := by
      have hnormal := hparts.normal
      rw [twoTo_52] at hbits hnormal
      exact ⟨m - 1, by omega⟩
    have hscale : (s : Int) - 1075 = (s : Int) - 1074 - 2 + 1 := by omega
    have hlow : 4 * (n + 1) - 2 = 4 * n + 2 := by omega
    rw [bitsMiddle_pred hparts (by omega) hbits, hscale, zpow_add_one₀ (by norm_num), hlow]
    push_cast
    ring

/-- The interval includes its ends where the bits are even. -/
theorem ends_of_bits (b : Nat) :
    (RoundingInterval.of (bitsMantissa b) ((bitsScale b : Int) - 1074)).ends = true ↔
      b % 2 = 0 := by
  have hbits := bits_eq b
  rw [twoTo_52] at hbits
  rw [RoundingInterval.of, decide_eq_true_eq]
  omega

/-- The interval of a number holds the decimals that round to it. -/
theorem holds_iff_roundsTo (h0 : 0 < b) :
    (RoundingInterval.of (bitsMantissa b) ((bitsScale b : Int) - 1074)).holds c k = true ↔
      RoundsTo (c * 10 ^ k) b := by
  obtain ⟨a, rfl⟩ : ∃ a, b = a + 1 := ⟨b - 1, by omega⟩
  have hexponent : (RoundingInterval.of (bitsMantissa (a + 1))
      ((bitsScale (a + 1) : Int) - 1074)).exponent = (bitsScale (a + 1) : Int) - 1074 - 2 := rfl
  rw [RoundingInterval.holds_iff, ends_of_bits, hexponent, low_of_bits, high_of_bits]
  constructor
  · rintro ⟨hlow, hup⟩
    refine ⟨fun c hc => ?_, hup⟩
    cases Nat.succ_injective hc
    exact hlow
  · exact fun h => ⟨h.lower a rfl, h.upper⟩

/-! ## The shortest decimal -/

theorem bitsMantissa_pos (h0 : 0 < b) : 0 < bitsMantissa b := by
  have hbits := bits_eq b
  have hnormal := (isParts_bits b).normal
  rw [twoTo_52] at hbits hnormal
  omega

/-- The decimal with the fewest digits rounds to the number. -/
theorem roundsTo_shortest (h0 : 0 < b) (h : b < infinityBits) :
    RoundsTo (shortest (bitsMantissa b) ((bitsScale b : Int) - 1074)).value b := by
  have hpos := bitsMantissa_pos h0
  have hlog : (bitsMantissa b).log2 ≤ 52 :=
    Nat.le_of_lt_succ ((Nat.log2_lt hpos.ne').mpr (bitsMantissa_lt b))
  have hscale : bitsScale b ≤ 2045 := Nat.sub_le_sub_right (Nat.le_of_lt_succ (scale_lt h)) 1
  set i := RoundingInterval.of (bitsMantissa b) ((bitsScale b : Int) - 1074) with hi
  set coarse := (((bitsMantissa b).log2 : Int) + ((bitsScale b : Int) - 1074) + 2) * 30103 / 100000
    + 1 with hcoarse
  -- The last grid has units no larger than those of the interval.
  have hgrid : (i.gridPoint? (coarse - (23 : Nat))).isSome = true := by
    refine RoundingInterval.gridPoint?_isSome ?_ (Nat.lt_succ_self _)
      (ten_zpow_le_two_zpow ?_ ?_)
    · change 4 * bitsMantissa b - (if _ then 1 else 2) < 4 * bitsMantissa b
      split <;> omega
    · change _ ≤ 3 * ((bitsScale b : Int) - 1074 - 2)
      omega
    · change _ ≤ 28 * ((bitsScale b : Int) - 1074 - 2)
      omega
  have hsearch : (i.search 24 coarse).isSome = true :=
    RoundingInterval.search_isSome (by decide) hgrid
  obtain ⟨d, hd⟩ := Option.isSome_iff_exists.mp hsearch
  have hround := (holds_iff_roundsTo h0).mp
    (RoundingInterval.holds_of_gridPoint? (RoundingInterval.gridPoint?_of_search hd))
  rw [shortest, ← hi, ← hcoarse, hd, Option.getD_some, Decimal.value_strip]
  exact hround

end Interval

end Abacus.Number
