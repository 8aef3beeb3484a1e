import Abacus.Proofs.Document.Numerals
import Abacus.Proofs.Number.Shortest

/-!
# Numbers in documents

A finite number is written as a numeral with a point or an exponent, which has the size of the
digits found for the number (`Numeral.exists_numeral`), and the others are written as words. Either
way the number is read back if its text by itself is read as the number (`isScalar_float`), and so
is a whole number of few enough digits (`isScalar_int`).
-/

namespace Abacus

/-! ## The digits of a number -/

namespace Number

/-- A positive number does not start with a zero. -/
theorem head_toDigits {n : Nat} (hn : 0 < n) : (Nat.toDigits 10 n).head? ≠ some '0' := by
  induction n using Nat.strong_induction_on with
  | _ n ih =>
    by_cases h : n < 10
    · rw [Nat.toDigits_of_lt_base h]
      have hdigit : ∀ k < 10, 0 < k → Nat.digitChar k ≠ '0' := by decide
      simpa using hdigit n h hn
    · rw [Nat.toDigits_of_base_le (by decide) (by omega), List.head?_append_of_ne_nil]
      · exact ih (n / 10) (by omega) (by omega)
      · exact Nat.toDigits_ne_nil

theorem ofDigits_toDigits (n : Nat) : ofDigits (Nat.toDigits 10 n) = n :=
  Nat.ofDigitChars_ten_toDigits

theorem ofDigits_zeros_append (n : Nat) (cs : List Char) :
    ofDigits (Layout.zeros n ++ cs) = ofDigits cs := by
  change Nat.ofDigitChars 10 (List.replicate n '0' ++ cs) 0 = Nat.ofDigitChars 10 cs 0
  rw [Nat.ofDigitChars_append, Nat.ofDigitChars_replicate_zero, Nat.mul_zero]

theorem ofDigits_append_zeros (cs : List Char) (n : Nat) :
    ofDigits (cs ++ Layout.zeros n) = 10 ^ n * ofDigits cs := by
  change Nat.ofDigitChars 10 (cs ++ List.replicate n '0') 0 = _ * Nat.ofDigitChars 10 cs 0
  rw [Nat.ofDigitChars_append, Nat.ofDigitChars_replicate_zero]

theorem eq_notANumber {x : Float} (h : x.isNaN = true) : x = notANumber := by
  have hnan : Float.nan = notANumber := by decide +kernel
  rw [Float.isNaN_eq_decide_eq_nan] at h
  rw [of_decide_eq_true h, hnan]

theorem beq_self {x : Float} (h : x.isNaN = false) : (x == x) = true := by
  rw [Float.isNaN_eq_decide_eq_nan] at h
  exact Float.beq_self_iff.mpr (of_decide_eq_false h)

/-- Unless `x` is no number, its text by itself is read as `x`. -/
def ReadsBack (x : Float) : Prop := x.isNaN = false → read? (text x) = some x

end Number

/-! ## Numbers as numerals -/

namespace Document

open Number (Layout standardLayout)

theorem isDigits_toDigits (n : Nat) : IsDigits (Nat.toDigits 10 n) :=
  ⟨Nat.toDigits_ne_nil, fun _ hc => Nat.isDigit_of_mem_toDigits (by decide) (by decide) hc⟩

theorem isDigits_zero : IsDigits ['0'] := isDigits_toDigits 0

theorem IsDigits.append {cs ds : List Char} (hc : IsDigits cs) (hd : ∀ d ∈ ds, d.isDigit) :
    IsDigits (cs ++ ds) :=
  ⟨by simp [hc.nonempty], List.forall_mem_append.mpr ⟨hc.digits, hd⟩⟩

theorem IsDigits.prepend {cs ds : List Char} (hc : ∀ c ∈ cs, c.isDigit) (hd : IsDigits ds) :
    IsDigits (cs ++ ds) :=
  ⟨by simp [hd.nonempty], List.forall_mem_append.mpr ⟨hc, hd.digits⟩⟩

theorem IsDigits.take {cs : List Char} (h : IsDigits cs) {k : Nat} (hk : 0 < k) :
    IsDigits (cs.take k) :=
  ⟨by simp [h.nonempty, hk.ne'], fun c hc => h.digits c (List.mem_of_mem_take hc)⟩

theorem IsDigits.drop {cs : List Char} (h : IsDigits cs) {k : Nat} (hk : k < cs.length) :
    IsDigits (cs.drop k) :=
  ⟨by simp [hk], fun c hc => h.digits c (List.mem_of_mem_drop hc)⟩

theorem isDigit_zeros (n : Nat) : ∀ c ∈ Layout.zeros n, c.isDigit := fun c hc => by
  rw [(List.mem_replicate.mp hc).2]; decide

namespace Numeral

/-- A numeral with a point or an exponent. -/
structure IsDecimal (n : Numeral) : Prop extends n.IsSpelled where
  broken : n.fraction.isSome ∨ n.exponent.isSome

/-- The size of a numeral as a fraction. -/
def exactSize (n : Numeral) : ℚ :=
  let places := n.fraction.getD []
  Number.ofDigits (n.whole ++ places) * 10 ^ (n.scale - places.length)

/-- The numeral writes the decimal with the sign, and with an exponent if its first digit stands far
from the point. -/
structure Writes (n : Numeral) (negative : Bool) (d : Number.Decimal) : Prop
    extends n.IsDecimal where
  sign : n.negative = negative
  size : n.exactSize = d.value
  positional : n.exponent = none ↔
    standardLayout.positionalFrom ≤ d.leading ∧ d.leading < standardLayout.positionalBelow

/-- Digits with a point between them make up a numeral. -/
theorem isDecimal_point {whole places : List Char} (hw : IsDigits whole)
    (hlead : whole.head? = some '0' → whole = ['0']) (hplaces : IsDigits places)
    (negative : Bool) : IsDecimal ⟨negative, whole, some places, none⟩ where
  whole := hw
  leading := hlead
  fraction := fun ds hds => by cases hds; exact hplaces
  exponent := fun e he => by cases he
  broken := .inl rfl

section Layout

variable {digits : List Char} {e k : Int}

theorem exists_positional (h : IsDigits digits) (hlead : digits.head? ≠ some '0')
    (he : e = k + digits.length - 1) (negative : Bool) :
    ∃ n : Numeral, n.IsDecimal ∧ n.negative = negative ∧ n.exponent = none ∧
      n.spellSize = standardLayout.positional digits e ∧
      n.exactSize = Number.ofDigits digits * 10 ^ k := by
  unfold Layout.positional
  split
  · -- A negative exponent: the digits stand behind the point, after zeros that have no value.
    have hn := isDecimal_point isDigits_zero (fun _ => rfl)
      (h.prepend (isDigit_zeros (-e - 1).toNat)) negative
    refine ⟨_, hn, rfl, rfl, by simp [spellSize, spellFraction, spellExponent], ?_⟩
    have hdigits : Number.ofDigits (['0'] ++ (Layout.zeros (-e - 1).toNat ++ digits)) =
        Number.ofDigits digits :=
      Number.ofDigits_zeros_append ((-e - 1).toNat + 1) digits
    have hlength : (0 : Int) - (Layout.zeros (-e - 1).toNat ++ digits).length = k := by
      rw [List.length_append, Layout.zeros, List.length_replicate]
      omega
    simp only [exactSize, scale, Option.getD_some, hdigits, hlength]
  · dsimp only
    split
    · -- All digits stand before the point: the zeros appended there scale them.
      have hn := isDecimal_point (h.append (isDigit_zeros (e.toNat + 1 - digits.length)))
        (fun hhead => by
          rw [List.head?_append_of_ne_nil _ h.nonempty] at hhead
          exact absurd hhead hlead) isDigits_zero negative
      refine ⟨_, hn, rfl, rfl, rfl, ?_⟩
      obtain ⟨n, rfl⟩ : ∃ n : Nat, k = n := ⟨k.toNat, by omega⟩
      have hzeros : e.toNat + 1 - digits.length = n := by omega
      have hdigits : Number.ofDigits (digits ++ Layout.zeros n ++ ['0']) =
          10 ^ (n + 1) * Number.ofDigits digits := by
        rw [List.append_assoc, ← Number.ofDigits_append_zeros, Layout.zeros, Layout.zeros,
          List.replicate_succ']
      simp only [exactSize, scale, Option.getD_some, hzeros, hdigits]
      rw [Nat.cast_mul, mul_comm (_ : ℚ) (Number.ofDigits digits : ℚ), mul_assoc]
      congr 1
      push_cast
      rw [← zpow_natCast, ← zpow_add₀ (by norm_num)]
      congr 1
      rw [List.length_singleton]
      omega
    · rename_i hlong
      -- The point falls among the digits, which are split there and keep their value.
      have hn := isDecimal_point (h.take (Nat.succ_pos e.toNat))
        (fun hhead => by
          rw [List.head?_take, if_neg (Nat.succ_ne_zero _)] at hhead
          exact absurd hhead hlead) (h.drop (Nat.not_le.mp hlong)) negative
      refine ⟨_, hn, rfl, rfl, by simp [spellSize, spellFraction, spellExponent], ?_⟩
      have hlength : (0 : Int) - (digits.drop (e.toNat + 1)).length = k := by
        rw [List.length_drop]
        omega
      simp only [exactSize, scale, Option.getD_some, List.take_append_drop, hlength]

theorem exists_scientific (h : IsDigits digits) (hlead : digits.head? ≠ some '0')
    (he : e = k + digits.length - 1) (negative : Bool) :
    ∃ n : Numeral, n.IsDecimal ∧ n.negative = negative ∧ n.exponent ≠ none ∧
      n.spellSize = standardLayout.scientific digits e ∧
      n.exactSize = Number.ofDigits digits * 10 ^ k := by
  let places := if (digits.drop 1).isEmpty then none else some (digits.drop 1)
  let power := Layout.zeros (2 - (Nat.toDigits 10 e.natAbs).length) ++ Nat.toDigits 10 e.natAbs
  refine ⟨⟨negative, digits.take 1, places, some (e < 0, power)⟩,
    ⟨⟨h.take Nat.one_pos, ?_, ?_, ?_⟩, .inr rfl⟩, rfl, Option.some_ne_none _, ?_, ?_⟩
  · -- One digit stands before the point. The leading digit is not a zero, which is what keeps the
    -- whole part canonical.
    intro hhead
    rw [List.head?_take, if_neg Nat.one_ne_zero] at hhead
    exact absurd hhead hlead
  · intro ds hds
    dsimp only [places] at hds
    split at hds
    · cases hds
    · rename_i hne
      cases hds
      exact ⟨by simpa using hne, fun c hc => h.digits c (List.mem_of_mem_drop hc)⟩
  · rintro _ ⟨⟩
    exact (isDigits_toDigits _).prepend (isDigit_zeros _)
  · have hplaces : spellFraction places =
        if (digits.drop 1).isEmpty then [] else '.' :: digits.drop 1 := by
      dsimp only [places]
      split <;> rfl
    simp only [spellSize, hplaces, spellExponent, decide_eq_true_eq, Layout.scientific,
      List.append_assoc]
    rfl
  · have hplaces : places.getD [] = digits.drop 1 := by
      dsimp only [places]
      split
      · rename_i hempty
        exact (List.isEmpty_iff.mp hempty).symm
      · rfl
    have hpower : Number.ofDigits power = e.natAbs := by
      rw [Number.ofDigits_zeros_append, Number.ofDigits_toDigits]
    have hscale : scale ⟨negative, digits.take 1, places, some (e < 0, power)⟩ = e := by
      unfold scale
      split
      · rename_i heq; cases heq
      · rename_i heq
        simp only [Option.some.injEq, Prod.mk.injEq, decide_eq_true_eq] at heq
        rw [← heq.2, hpower]
        omega
      · rename_i heq
        simp only [Option.some.injEq, Prod.mk.injEq, decide_eq_false_iff_not] at heq
        rw [← heq.2, hpower]
        omega
    have hlength : e - (digits.drop 1).length = k := by
      have := List.length_pos_iff.mpr h.nonempty
      rw [List.length_drop]
      omega
    simp only [exactSize, hscale, hplaces, List.take_append_drop, hlength]

/-- A decimal that is not zero is written as a numeral of the same size. -/
theorem exists_decimal {d : Number.Decimal} (hd : 0 < d.digits) (negative : Bool) :
    ∃ n : Numeral, n.Writes negative d ∧ n.spellSize = standardLayout.decimal d := by
  have hdigits := isDigits_toDigits d.digits
  have hlead := Number.head_toDigits hd
  have hvalue := Number.ofDigits_toDigits d.digits
  rw [Layout.decimal]
  split
  · rename_i hrange
    rw [Bool.and_eq_true, decide_eq_true_eq, decide_eq_true_eq] at hrange
    obtain ⟨n, hn, hsign, hnone, hspell, hsize⟩ :=
      exists_positional (k := d.exponent) hdigits hlead rfl negative
    rw [hvalue] at hsize
    exact ⟨n, ⟨hn, hsign, hsize, iff_of_true hnone hrange⟩, hspell⟩
  · rename_i hrange
    rw [Bool.and_eq_true, decide_eq_true_eq, decide_eq_true_eq] at hrange
    obtain ⟨n, hn, hsign, hnone, hspell, hsize⟩ :=
      exists_scientific (k := d.exponent) hdigits hlead rfl negative
    rw [hvalue] at hsize
    exact ⟨n, ⟨hn, hsign, hsize, iff_of_false hnone hrange⟩, hspell⟩

end Layout

/-- The digits of a finite number. -/
def digitsOf (d : Number.Dyadic) : Number.Decimal :=
  if d.mantissa = 0 then ⟨0, 0⟩ else Number.shortest d.mantissa d.exponent

/-- A finite number is written as a numeral, in documents as elsewhere. -/
theorem exists_numeral {x : Float} {d : Number.Dyadic} (hx : Number.Dyadic.ofFloat? x = some d) :
    ∃ n : Numeral, n.Writes d.negative (digitsOf d) ∧ Number.text x = String.ofList n.spell ∧
      numberLayout.write x = String.ofList n.spell := by
  have hwrite : numberLayout.write x = Number.text x := by
    rw [Number.text, Layout.write, Layout.write, hx]
    rfl
  obtain ⟨n, hn, hsize⟩ : ∃ n : Numeral, n.Writes d.negative (digitsOf d) ∧
      n.spellSize = if d.mantissa = 0 then '0' :: standardLayout.wholeTail.toList
        else standardLayout.decimal (Number.shortest d.mantissa d.exponent) := by
    rw [digitsOf]
    split
    · have hn := isDecimal_point isDigits_zero (fun _ => rfl) isDigits_zero d.negative
      have hsize : exactSize ⟨d.negative, ['0'], some ['0'], none⟩ =
          (⟨0, 0⟩ : Number.Decimal).value := by
        simp [exactSize, Number.Decimal.value, Number.ofDigits]
      exact ⟨_, ⟨hn, rfl, hsize, iff_of_true rfl (by decide)⟩, rfl⟩
    · rename_i hm
      exact exists_decimal (Number.shortest_pos (Nat.pos_of_ne_zero hm) _) d.negative
  have htext : Number.text x = String.ofList n.spell := by
    rw [Number.text, Layout.write, hx, spell, spellSign, hn.sign, hsize]
  exact ⟨n, hn, htext, hwrite.trans htext⟩

end Numeral

/-! ## Words and numbers are read back -/

/-- The word or number at the start of a text is `d`, and `rest` is left behind it. -/
def IsScalar (cs : List Char) (d : Document) (rest : List Char) : Prop :=
  ∃ h, scalar cs = .ok ⟨d, rest, h⟩

section Scalar

variable {rest : List Char}

theorem isScalar_of_word {w : List Char} {d : Document} (h : (w, d) ∈ words) (rest : List Char) :
    IsScalar (w ++ rest) d rest := by
  have hfind : (words.find? fun v => v.1.isPrefixOf (w ++ rest)) = some (w, d) := by
    simp only [words, List.mem_cons, List.not_mem_nil, or_false, Prod.mk.injEq] at h
    obtain ⟨rfl, rfl⟩ | ⟨rfl, rfl⟩ | ⟨rfl, rfl⟩ | ⟨rfl, rfl⟩ | ⟨rfl, rfl⟩ | ⟨rfl, rfl⟩ := h
    all_goals rfl
  have hlt : rest.length < (w ++ rest).length := by
    have hw : ∀ v ∈ words.map Prod.fst, 0 < v.length := by decide
    rw [List.length_append]
    exact Nat.lt_add_of_pos_left (hw w (List.mem_map_of_mem h))
  refine ⟨hlt, ?_⟩
  rw [scalar]
  simp only [hfind, List.drop_left, hlt, ↓reduceDIte]

/-- No word is the start of a numeral. -/
theorem find?_words_spell {n : Numeral} (h : n.IsSpelled) (rest : List Char) :
    (words.find? fun w => w.1.isPrefixOf (n.spell ++ rest)) = none := by
  obtain ⟨c, cs, heq, hc⟩ := h.head_spellSize rest
  have hdigit : ∀ c ∈ Number.asciiDigits, 'n' ≠ c ∧ 't' ≠ c ∧ 'f' ≠ c ∧ 'N' ≠ c ∧ 'I' ≠ c ∧
      '-' ≠ c := List.all_iff_forall_prop.mp (by decide)
  obtain ⟨hn, ht, hf, hN, hI, hminus⟩ := hdigit c (Number.mem_digits hc)
  rw [Numeral.spell, Numeral.spellSign, List.append_assoc, heq]
  cases n.negative with
  | true => simp [words, List.isPrefixOf, hI]
  | false => simp [words, List.isPrefixOf, hn, ht, hf, hN, hI, hminus]

theorem isScalar_spell {n : Numeral} {d : Document} (h : n.IsSpelled) (hd : n.value = .ok d)
    (hrest : Stops rest) : IsScalar (n.spell ++ rest) d rest := by
  have hlt : rest.length < (n.spell ++ rest).length := by
    have hne : n.spell ≠ [] := by simp [Numeral.spell, Numeral.spellSize, h.whole.nonempty]
    rw [List.length_append]
    exact Nat.lt_add_of_pos_left (List.length_pos_iff.mpr hne)
  refine ⟨hlt, ?_⟩
  have hwhole : n.whole.isEmpty = false := by simp [h.whole.nonempty]
  rw [scalar]
  simp only [find?_words_spell h, Numeral.take_spell h hrest, hd, hwhole, hlt, ↓reduceDIte,
    Bool.false_eq_true, ↓reduceIte]

/-- A number is read back where it is read back by itself. What is no number is a word. -/
theorem isScalar_float {x : Float} (hx : Number.ReadsBack x) (hrest : Stops rest) :
    IsScalar ((numberLayout.write x).toList ++ rest) (.float x) rest := by
  by_cases hnan : x.isNaN
  · rw [Number.eq_notANumber hnan,
      (by decide +kernel : numberLayout.write Number.notANumber = "NaN")]
    exact isScalar_of_word (by simp [words]) rest
  · have hread := hx (by simpa using hnan)
    cases hd : Number.Dyadic.ofFloat? x with
    | none =>
      rw [Layout.write, hd]
      rw [Number.text, Layout.write, hd] at hread
      by_cases hneg : x < 0
      · simp only [hnan, hneg, Bool.false_eq_true, ↓reduceIte] at hread ⊢
        have hx : x = -Number.infinity := Option.some.inj (hread.symm.trans (by decide +kernel))
        rw [hx]
        exact isScalar_of_word (by simp [words, numberLayout]) rest
      · simp only [hnan, hneg, Bool.false_eq_true, ↓reduceIte] at hread ⊢
        have hx : x = Number.infinity := Option.some.inj (hread.symm.trans (by decide +kernel))
        rw [hx]
        exact isScalar_of_word (by simp [words, numberLayout]) rest
    | some d =>
      obtain ⟨n, hn, htext, hwrite⟩ := Numeral.exists_numeral hd
      rw [htext, hn.read?, Option.some.injEq] at hread
      rw [hwrite, String.toList_ofList, ← hread]
      exact isScalar_spell hn.toIsSpelled (Numeral.value_eq hn.broken) hrest

/-- A whole number as a numeral. -/
def Numeral.ofInt (n : Int) : Numeral := ⟨n < 0, Nat.toDigits 10 n.natAbs, none, none⟩

theorem Numeral.isSpelled_ofInt (n : Int) : (ofInt n).IsSpelled where
  whole := isDigits_toDigits _
  leading := fun h => by
    rcases Nat.eq_zero_or_pos n.natAbs with hn | hn
    · rw [ofInt, hn]; rfl
    · exact absurd h (Number.head_toDigits hn)
  fraction := fun ds hds => by cases hds
  exponent := fun e he => by cases he

theorem Numeral.spell_ofInt (n : Int) : (toString n).toList = (ofInt n).spell := by
  cases n with
  | ofNat m =>
    change (Nat.repr m).toList = _
    simp [Nat.repr, spell, spellSign, spellSize, spellFraction, spellExponent, ofInt]
  | negSucc m =>
    change ("-" ++ Nat.repr (m + 1)).toList = _
    simp [Nat.repr, spell, spellSign, spellSize, spellFraction, spellExponent, ofInt]

/-- A whole number is read back if it has no more digits than a document may have. -/
theorem isScalar_int {n : Int} (hn : (Nat.toDigits 10 n.natAbs).length ≤ maxDigits)
    (hrest : Stops rest) : IsScalar ((toString n).toList ++ rest) (.int n) rest := by
  have hvalue : (Numeral.ofInt n).value = .ok (.int n) := by
    simp only [Numeral.value, Numeral.ofInt, Nat.not_lt.mpr hn, Number.ofDigits_toDigits,
      decide_eq_true_eq, ↓reduceIte]
    congr 2
    split <;> omega
  rw [Numeral.spell_ofInt]
  exact isScalar_spell (Numeral.isSpelled_ofInt n) hvalue hrest

end Scalar

end Document

end Abacus
