import Abacus.Proofs.Number.ReadBack
import Abacus.Proofs.Program.RoundTrip

/-!
# Numbers that programs can be printed with

A finite number without a sign is written as a numeral, with all digits if it is whole
(`exists_plain`), and the scanner takes the text for one number unless it has an exponent
(`rereads_iff_of_plain`). So the numbers of a source are printed as numbers where they are zero, or
finite and not below `0.0001` (`rereads_literal_iff`).
-/

namespace Abacus.Number

open Document (Numeral)
open Document.Numeral (digitsOf)

/-! ## Numerals without an exponent -/

section Numerals

variable {n : Numeral} {v : Float}

/-- The scanner takes a numeral for one number if it has neither a sign nor an exponent. -/
theorem isNumeral_spell_iff (h : n.IsSpelled) (hsign : n.negative = false) :
    IsNumeral n.spell ↔ n.exponent = none := by
  rw [Numeral.spell, Numeral.spellSign, hsign, if_neg Bool.false_ne_true, List.nil_append]
  constructor
  · intro hn
    cases he : n.exponent with
    | none => rfl
    | some e =>
      have hletter : 'e' ∈ n.spellSize := by
        simp [Numeral.spellSize, Numeral.spellExponent, he]
      have hchars : ∀ c ∈ '.' :: asciiDigits, c ≠ 'e' := List.all_iff_forall_prop.mp (by decide)
      exact absurd rfl (hn.forall hchars 'e' hletter)
  · intro he
    refine ⟨n.whole, Numeral.spellFraction n.fraction, ?_, h.whole.nonempty, h.whole.digits, ?_⟩
    · rw [Numeral.spellSize, he, Numeral.spellExponent, List.append_nil]
    · cases hf : n.fraction with
      | none => exact .inl rfl
      | some digits => exact .inr ⟨digits, rfl, (h.fraction digits hf).digits⟩

/-- A numeral is scanned as one number. -/
theorem sourceTokens_numeral {s : String} (h : IsNumeral s.toList) :
    ∃ t e, sourceTokens s = .ok [t, e] ∧ t.kind = .number ∧ t.text = s := by
  obtain ⟨ts, hcuts, t, hvisible, hk, ht⟩ := Writes.number h 0 [] fun c hc => by cases hc
  refine ⟨t, Token.endAt s.length, ?_, hk, ht⟩
  rw [sourceTokens, Lexicon.tokens_of_cuts hcuts, hvisible]
  rfl

/-- A number that is written as a numeral without a sign is read back from its text exactly if there
is no exponent. -/
theorem rereads_iff_of_plain (h : n.IsSpelled) (hsign : n.negative = false)
    (hplain : plain v = String.ofList n.spell) (hv : n.number = v) (hnan : v.isNaN = false) :
    Rereads v ↔ n.exponent = none := by
  have hnumeral : IsNumeral (plain v).toList ↔ n.exponent = none := by
    rw [hplain, String.toList_ofList, isNumeral_spell_iff h hsign]
  rw [← hnumeral]
  constructor
  · exact fun hr => hr.spec.1
  · intro hn
    obtain ⟨t, e, hts, hk, ht⟩ := sourceTokens_numeral hn
    refine ⟨t, e, v, hts, hk, ?_, beq_self hnan⟩
    rw [ht, hplain, h.read?, hv]

end Numerals

/-! ## The numeral of a number -/

section Plain

variable {b : Nat}

/-- The finite number with the bits `b` as a fraction. -/
def dyadicOf (b : Nat) : Dyadic := ⟨false, bitsMantissa b, (bitsScale b : Int) - 1074⟩

/-- A whole number is what is left of it without its fractional digits. -/
theorem exists_truncate {m : Nat} {e : Int} (h : (Dyadic.mk false m e).isWhole = true) :
    ∃ n : Nat, (Dyadic.mk false m e).truncate = n ∧ (m * 2 ^ e : ℚ) = n := by
  rw [Dyadic.isWhole, Bool.or_eq_true, decide_eq_true_eq, decide_eq_true_eq] at h
  refine ⟨_, rfl, ?_⟩
  rw [zpow_eq_div]
  dsimp only at h ⊢
  split
  · rename_i hexponent
    rw [Int.toNat_of_nonpos (neg_nonpos.mpr hexponent), pow_zero, div_one]
    push_cast [cast_twoTo]
    rfl
  · rename_i hexponent
    obtain ⟨k, rfl⟩ := Nat.dvd_of_mod_eq_zero (h.resolve_left hexponent)
    rw [Int.toNat_of_nonpos (le_of_not_ge hexponent), pow_zero,
      Nat.mul_div_cancel_left k (twoTo_pos _)]
    push_cast [cast_twoTo]
    field_simp

/-- A finite number is written as a numeral, which has no exponent if the number is whole or its
first digit stands near the point. -/
theorem exists_plain (h : b < infinityBits) :
    ∃ n : Numeral, n.IsSpelled ∧ n.negative = false ∧
      plain (withBits false b) = String.ofList n.spell ∧ n.number = withBits false b ∧
      (n.exponent = none ↔ (dyadicOf b).isWhole = true ∨
        -4 ≤ (digitsOf (dyadicOf b)).leading ∧ (digitsOf (dyadicOf b)).leading < 16) := by
  have hparts : Dyadic.ofFloat? (withBits false b) = some (dyadicOf b) := ofFloat?_withBits false h
  rw [plain, hparts]
  by_cases hwhole : (dyadicOf b).isWhole = true
  · -- A whole number is printed by its digits alone, which spell it exactly.
    obtain ⟨n, htruncate, hvalue⟩ : ∃ n : Nat, (dyadicOf b).truncate = n ∧ bitsValue b = n :=
      exists_truncate hwhole
    refine ⟨Numeral.ofInt n, Numeral.isSpelled_ofInt n, by simp [Numeral.ofInt], ?_, ?_,
      iff_of_true rfl (.inl hwhole)⟩
    · simp only [hwhole, ↓reduceIte, htruncate]
      rw [← Numeral.spell_ofInt, String.ofList_toList]
    · have hround : RoundsTo ((Number.ofDigits (Nat.toDigits 10 n ++ []) : Nat) *
          10 ^ ((0 : Int) - ([] : List Char).length)) b := by
        rw [List.append_nil, ofDigits_toDigits]
        simpa [← hvalue] using roundsTo_bitsValue b
      rw [Numeral.number, if_neg (by simp [Numeral.ofInt])]
      exact (ofDecimal_of_roundsTo hround).trans (by rw [min_eq_left h.le])
  · obtain ⟨n, hn, htext, -⟩ := Numeral.exists_numeral hparts
    refine ⟨n, hn.toIsSpelled, hn.sign, ?_, number_of_writes h hn, ?_⟩
    · simp only [hwhole]
      exact htext
    · rw [hn.positional, or_iff_right hwhole]
      rfl

/-! ## Where the exponent begins -/

/-- The bits of the least number that is written without an exponent. -/
def leastPlain : Nat := 4547007122018943789

theorem withBits_leastPlain : withBits false leastPlain = 0.0001 := by decide +kernel

theorem roundsTo_leastPlain : RoundsTo (10 ^ (-4 : Int)) leastPlain := by
  obtain ⟨b, hb, hbits⟩ := @exists_roundsTo 1 10000 (by decide)
  have hleast : nearestBits 1 10000 = leastPlain := by decide +kernel
  have hlt : leastPlain < 2047 * twoTo 52 := by decide
  have hvalue : (10 : ℚ) ^ (-4 : Int) = (1 : Nat) / (10000 : Nat) := by norm_num
  rw [hleast] at hbits
  rw [hvalue, (by omega : leastPlain = b)]
  exact hb

theorem isWhole_zero : (dyadicOf 0).isWhole = true := by decide +kernel

/-- From `10 ^ 16` on all numbers are whole. -/
theorem isWhole_of_le {x : ℚ} (hx : (10 : ℚ) ^ (16 : Int) ≤ x) (hb : RoundsTo x b) :
    (dyadicOf b).isWhole = true := by
  have hparts : IsParts 1074 (twoTo 53) := ⟨le_refl _, .inr (by rw [twoTo_52, twoTo_53]; omega)⟩
  have hle : bitsValue (1074 * twoTo 52 + twoTo 53) ≤ x := by
    rw [bitsValue_parts hparts, twoTo_53]
    norm_num at hx ⊢
    linarith
  have hbits := (roundsTo_bitsValue _).le hb hle
  rw [twoTo_52, twoTo_53] at hbits
  have hexponent : 0 ≤ (dyadicOf b).exponent := by
    change 0 ≤ (bitsScale b : Int) - 1074
    rw [bitsScale, twoTo_52]
    omega
  rw [Dyadic.isWhole, decide_eq_true hexponent, Bool.true_or]

theorem digitsOf_pos (h0 : 0 < b) : 0 < (digitsOf (dyadicOf b)).digits := by
  have hne : ¬ (dyadicOf b).mantissa = 0 := (bitsMantissa_pos h0).ne'
  rw [digitsOf, if_neg hne]
  exact shortest_pos (bitsMantissa_pos h0) _

/-- The first digit of a number that is not whole stands near the point if it is not too small. -/
theorem leading_digitsOf_iff (h : b < infinityBits) (hwhole : ¬ (dyadicOf b).isWhole = true) :
    -4 ≤ (digitsOf (dyadicOf b)).leading ∧ (digitsOf (dyadicOf b)).leading < 16 ↔
      leastPlain ≤ b := by
  have h0 : 0 < b := Nat.pos_of_ne_zero fun h0 => hwhole (h0 ▸ isWhole_zero)
  have hround : RoundsTo (digitsOf (dyadicOf b)).value b := roundsTo_digitsOf false h
  have hlow := Decimal.ten_zpow_leading_le (digitsOf_pos h0)
  have hup := (digitsOf (dyadicOf b)).value_lt_ten_zpow
  have hsmall : (digitsOf (dyadicOf b)).leading < 16 := by
    by_contra hlarge
    have hpower : (10 : ℚ) ^ (16 : Int) ≤ 10 ^ (digitsOf (dyadicOf b)).leading :=
      zpow_le_zpow_right₀ (by norm_num) (by omega)
    exact hwhole (isWhole_of_le (hpower.trans hlow) hround)
  rw [and_iff_left hsmall]
  constructor
  · intro hleading
    have hpower : (10 : ℚ) ^ (-4 : Int) ≤ 10 ^ (digitsOf (dyadicOf b)).leading :=
      zpow_le_zpow_right₀ (by norm_num) hleading
    exact roundsTo_leastPlain.le hround (hpower.trans hlow)
  · intro hleast
    by_contra hleading
    have hpower : (10 : ℚ) ^ ((digitsOf (dyadicOf b)).leading + 1) ≤ 10 ^ (-4 : Int) :=
      zpow_le_zpow_right₀ (by norm_num) (by omega)
    have hle := hround.le roundsTo_leastPlain (hup.le.trans hpower)
    -- The least of these numbers is written `0.0001`.
    have heq : b = leastPlain := by omega
    rw [heq] at hleading
    exact hleading (by decide +kernel)

theorem leastPlain_le_of_isWhole (hwhole : (dyadicOf b).isWhole = true) (h0 : 0 < b) :
    leastPlain ≤ b := by
  obtain ⟨n, -, hvalue⟩ : ∃ n : Nat, (dyadicOf b).truncate = n ∧ bitsValue b = n :=
    exists_truncate hwhole
  have hpos : bitsValue 0 < bitsValue b := strictMono_bitsValue h0
  have hn : (1 : ℚ) ≤ n := by
    rw [bitsValue_zero, hvalue] at hpos
    exact_mod_cast hpos
  refine roundsTo_leastPlain.le (roundsTo_bitsValue b) ?_
  rw [hvalue]
  refine le_trans ?_ hn
  norm_num

/-- A number without a sign is read back from its text if it is zero or finite and not below
`0.0001`. -/
theorem rereads_withBits_iff (h : b ≤ infinityBits) :
    Rereads (withBits false b) ↔ b = 0 ∨ leastPlain ≤ b ∧ b < infinityBits := by
  rcases h.lt_or_eq with hlt | rfl
  · obtain ⟨n, hn, hsign, hplain, hnumber, hexponent⟩ := exists_plain hlt
    rw [rereads_iff_of_plain hn hsign hplain hnumber (isNaN_withBits false h), hexponent,
      and_iff_left hlt]
    by_cases hwhole : (dyadicOf b).isWhole = true
    · refine iff_of_true (.inl hwhole) ?_
      exact (Nat.eq_zero_or_pos b).imp_right (leastPlain_le_of_isWhole hwhole)
    · rw [or_iff_right hwhole, leading_digitsOf_iff hlt hwhole, or_iff_right]
      rintro rfl
      exact hwhole isWhole_zero
  · refine iff_of_false (fun hr => ?_) (not_or.mpr ⟨by decide, fun hb => lt_irrefl _ hb.2⟩)
    have htext : plain (withBits false infinityBits) = "inf" := by decide +kernel
    have hnumeral := hr.spec.1
    have hchars : ∀ c ∈ '.' :: asciiDigits, c ≠ 'i' := List.all_iff_forall_prop.mp (by decide)
    rw [htext] at hnumeral
    exact absurd rfl (hnumeral.forall hchars 'i' (by decide))

/-- The number of a literal is printed as a literal of the same value exactly if it is zero, or
finite and not below `0.0001`. -/
theorem rereads_literal_iff {s : String} (h : IsNumeral s.toList) :
    ∃ v, read? s = some v ∧ (Rereads v ↔ v = 0 ∨ 0.0001 ≤ v ∧ v.isFinite = true) := by
  obtain ⟨digits, exponent, hread⟩ := h.exists_read?
  obtain ⟨b, hb, hv⟩ := exists_ofDecimal digits exponent
  have hleast : leastPlain ≤ infinityBits := by decide
  have hzero : withBits false b = 0 ↔ b = 0 := by
    rw [← withBits_zero, withBits_inj false hb (Nat.zero_le _)]
  refine ⟨withBits false b, by rw [hread, hv], ?_⟩
  rw [rereads_withBits_iff hb, hzero, ← withBits_leastPlain, withBits_le_iff hleast hb,
    isFinite_withBits false hb]

/-- The least number that is printed without an exponent, with a zero at the end of its literal. -/
theorem rereads_literal_least :
    IsNumeral "0.00010".toList ∧ read? "0.00010" = some 0.0001 ∧ Rereads 0.0001 := by
  have h : IsNumeral (Lexicon.numberRun "0.00010".toList) :=
    Lexicon.numberRun_isNumeral (by decide)
  have hrun : Lexicon.numberRun "0.00010".toList = "0.00010".toList := by decide
  rw [hrun] at h
  obtain ⟨v, hread, hiff⟩ := rereads_literal_iff h
  have hv : v = 0.0001 := Option.some.inj (hread.symm.trans (by decide +kernel))
  rw [hv] at hread hiff
  exact ⟨h, hread, hiff.mpr (.inr ⟨by decide +kernel, by decide +kernel⟩)⟩

/-- A smaller number is printed with an exponent, and the scanner takes that for four tokens. -/
theorem small_literal_not_reread :
    IsNumeral "0.00001".toList ∧ ∃ v, read? "0.00001" = some v ∧ ¬ Rereads v := by
  have h : IsNumeral (Lexicon.numberRun "0.00001".toList) :=
    Lexicon.numberRun_isNumeral (by decide)
  have hrun : Lexicon.numberRun "0.00001".toList = "0.00001".toList := by decide
  rw [hrun] at h
  refine ⟨h, 0.00001, by decide +kernel, ?_⟩
  rintro ⟨t, e, w, hts, -⟩
  have htokens : (sourceTokens (plain 0.00001)).map List.length = .ok 5 := by decide +kernel
  rw [hts] at htokens
  cases htokens

end Plain

end Abacus.Number
