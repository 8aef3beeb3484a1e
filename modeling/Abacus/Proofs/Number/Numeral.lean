import Abacus.Number.Reading
import Mathlib.Data.Bool.AllAny
import Mathlib.Tactic.IntervalCases

/-!
# Plain numerals

A plain numeral is what the scanner takes for a number: digits, then maybe a point and more digits.
`read?` gives a value for each of them (`IsNumeral.read?_isSome`); the padding, signs, names,
scripts and underscores that `read?` looks for do not occur in one.
-/

namespace Abacus.Number

/-- Digits, then maybe a point and more digits. -/
def IsNumeral (cs : List Char) : Prop :=
  ∃ whole tail, cs = whole ++ tail ∧ whole ≠ [] ∧ (∀ c ∈ whole, c.isDigit) ∧
    (tail = [] ∨ ∃ fraction, tail = '.' :: fraction ∧ ∀ c ∈ fraction, c.isDigit)

/-- The ASCII digits. -/
def asciiDigits : List Char := ['0', '1', '2', '3', '4', '5', '6', '7', '8', '9']

theorem mem_digits {c : Char} (h : c.isDigit) : c ∈ asciiDigits := by
  have hc := Char.isDigit_iff_toNat.mp h
  rw [← Char.ofNat_toNat c]
  generalize c.toNat = n at hc
  obtain ⟨h₁, h₂⟩ := hc
  change 48 ≤ n at h₁
  change n ≤ 57 at h₂
  interval_cases n <;> decide

/-- What holds of the ten digits and of the point holds of the characters of a numeral. -/
theorem IsNumeral.forall {cs : List Char} {P : Char → Prop} (h : IsNumeral cs)
    (hP : ∀ c ∈ '.' :: asciiDigits, P c) : ∀ c ∈ cs, P c := by
  obtain ⟨hpoint, hdigit⟩ := List.forall_mem_cons.mp hP
  obtain ⟨whole, tail, rfl, -, hw, ht⟩ := h
  intro c hc
  rcases List.mem_append.mp hc with hc | hc
  · exact hdigit c (mem_digits (hw c hc))
  · rcases ht with rfl | ⟨fraction, rfl, hf⟩
    · cases hc
    · rcases List.mem_cons.mp hc with rfl | hc
      · exact hpoint
      · exact hdigit c (mem_digits (hf c hc))

/-- A numeral starts with a digit. -/
theorem IsNumeral.head {cs : List Char} (h : IsNumeral cs) :
    ∃ c rest, cs = c :: rest ∧ c.isDigit := by
  obtain ⟨whole, tail, rfl, hne, hw, -⟩ := h
  cases whole with
  | nil => exact absurd rfl hne
  | cons c whole => exact ⟨c, whole ++ tail, rfl, hw c List.mem_cons_self⟩

theorem trimPadding_eq {cs : List Char} (h : ∀ c ∈ cs, Text.isPadding c = false) :
    trimPadding cs = cs := by
  have hdrop : ∀ ds : List Char, (∀ c ∈ ds, Text.isPadding c = false) →
      ds.dropWhile Text.isPadding = ds := by
    intro ds hds
    cases ds with
    | nil => rfl
    | cons d ds => rw [List.dropWhile_cons_of_neg (by simp [hds d List.mem_cons_self])]
  rw [trimPadding, hdrop cs h, hdrop cs.reverse fun c hc => h c (List.mem_reverse.mp hc),
    List.reverse_reverse]

theorem dropUnderscores_eq {cs : List Char} (h : ∀ c ∈ cs, c ≠ '_') (before : Bool) :
    dropUnderscores before cs = some cs := by
  induction cs generalizing before with
  | nil => rfl
  | cons c cs ih =>
    have hc := h c List.mem_cons_self
    have ih := fun b => ih (fun d hd => h d (List.mem_cons_of_mem c hd)) b
    rw [dropUnderscores]
    · simp [hc, ih]
    · intro _ _ he; exact absurd he hc

theorem takeWhile_digits {whole : List Char} (rest : List Char) (hw : ∀ c ∈ whole, c.isDigit)
    (hrest : ∀ c ∈ rest.head?, c.isDigit = false) :
    (whole ++ rest).takeWhile Char.isDigit = whole ∧
      (whole ++ rest).dropWhile Char.isDigit = rest := by
  rw [List.takeWhile_append_of_pos hw, List.dropWhile_append_of_pos hw]
  cases rest with
  | nil => simp
  | cons c cs => simp [hrest c rfl]

theorem IsNumeral.exists_readDecimal? {cs : List Char} (h : IsNumeral cs) :
    ∃ digits exponent, readDecimal? cs = some (ofDecimal digits exponent) := by
  obtain ⟨whole, tail, rfl, hne, hw, ht⟩ := h
  rcases ht with rfl | ⟨fraction, rfl, hf⟩
  · obtain ⟨h₁, h₂⟩ := takeWhile_digits [] hw (by simp)
    refine ⟨ofDigits whole, 0, ?_⟩
    unfold readDecimal?
    rw [h₁, h₂]
    simp [hne]
  · obtain ⟨h₁, h₂⟩ := takeWhile_digits ('.' :: fraction) hw
      fun c hc => by cases hc; decide
    obtain ⟨h₃, h₄⟩ := takeWhile_digits [] hf (by simp)
    rw [List.append_nil] at h₃ h₄
    refine ⟨ofDigits (whole ++ fraction), 0 - fraction.length, ?_⟩
    unfold readDecimal?
    rw [h₁, h₂]
    simp [h₃, h₄, hne]

theorem readUnsigned?_of_digit {c : Char} {rest : List Char} (hc : c.isDigit) :
    readUnsigned? (c :: rest) = readDecimal? (c :: rest) := by
  have hlower : ∀ d ∈ asciiDigits, d.toLower ≠ 'i' ∧ d.toLower ≠ 'n' :=
    List.all_iff_forall_prop.mp (by decide)
  obtain ⟨hi, hn⟩ := hlower c (mem_digits hc)
  simp [readUnsigned?, hi, hn]

/-- A plain numeral is read as a decimal without a sign. -/
theorem IsNumeral.exists_read? {s : String} (h : IsNumeral s.toList) :
    ∃ digits exponent, read? s = some (ofDecimal digits exponent) := by
  have hdigits : ∀ c ∈ s.toList, plainDigit c = id c ∧ Text.isPadding c = false ∧ c ≠ '_' :=
    h.forall (List.all_iff_forall_prop.mp (by decide))
  have hplain : s.toList.map plainDigit = s.toList := by
    rw [List.map_congr_left fun c hc => (hdigits c hc).1, List.map_id]
  have htrim := trimPadding_eq fun c hc => (hdigits c hc).2.1
  have hunder := dropUnderscores_eq (fun c hc => (hdigits c hc).2.2) false
  obtain ⟨c, rest, hcs, hc⟩ := h.head
  have hsign : ∀ d ∈ asciiDigits, d ≠ '-' ∧ d ≠ '+' := List.all_iff_forall_prop.mp (by decide)
  obtain ⟨hm, hp⟩ := hsign c (mem_digits hc)
  have hvalue := h.exists_readDecimal?
  unfold read?
  rw [htrim, hplain, hunder]
  rw [hcs] at hvalue ⊢
  rw [← readUnsigned?_of_digit hc] at hvalue
  split
  · rename_i he; cases he
  · rename_i he; cases he; exact absurd rfl hm
  · rename_i he; cases he; exact absurd rfl hp
  · rename_i he; cases he; exact hvalue

/-- Every plain numeral has a value. -/
theorem IsNumeral.read?_isSome {s : String} (h : IsNumeral s.toList) : (read? s).isSome := by
  obtain ⟨digits, exponent, hread⟩ := h.exists_read?
  rw [hread]
  rfl

end Abacus.Number
