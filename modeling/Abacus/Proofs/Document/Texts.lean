import Abacus.Document.Reader
import Abacus.Document.Writer
import Mathlib.Data.Bool.AllAny
import Mathlib.Data.Nat.Digits.Defs

/-!
# Texts in documents

A text is written between quotation marks, with escapes for whatever is not plain ASCII. A string
is read back as it was (`isText_flatMap_writePoint`). Beyond sixteen bits a character is written as
two units, which are read back together; so two halves that stand side by side in a text would be
read back as one character.
-/

namespace Abacus.Document

/-- The escape behind a backslash stands for `p` and leaves `rest`. -/
def IsEscape (cs : List Char) (p : CodePoint) (rest : List Char) : Prop :=
  ∃ h, escape? cs = some ⟨p, rest, h⟩

/-- The text behind an opening quotation mark is `ps`, and `rest` is left behind the closing one. -/
def IsText (cs : List Char) (ps : List CodePoint) (rest : List Char) : Prop :=
  ∃ h, text? cs = some ⟨ps, rest, h⟩

/-! ## Hexadecimal digits -/

theorem hexValue?_digitChar : ∀ n < 16, hexValue? (Nat.digitChar n) = some n := by decide

/-- Behind at least one digit, a padded number is written digit by digit. -/
theorem hexPadded_succ {width : Nat} (hw : 0 < width) (n : Nat) :
    Text.hexPadded (width + 1) n = Text.hexPadded width (n / 16) ++ [Nat.digitChar (n % 16)] := by
  unfold Text.hexPadded
  by_cases hn : n < 16
  · rw [Nat.toDigits_of_lt_base hn, Nat.div_eq_of_lt hn, Nat.mod_eq_of_lt hn, Nat.toDigits_zero]
    obtain ⟨k, rfl⟩ := Nat.exists_eq_succ_of_ne_zero hw.ne'
    simp [List.replicate_succ']
  · rw [Nat.toDigits_of_base_le (by omega) (by omega)]
    simp

theorem hexPadded_four {n : Nat} (hn : n < 0x10000) :
    Text.hexPadded 4 n = [Nat.digitChar (n / 4096), Nat.digitChar (n / 256 % 16),
      Nat.digitChar (n / 16 % 16), Nat.digitChar (n % 16)] := by
  have hone : ∀ m < 16, Text.hexPadded 1 m = [Nat.digitChar m] := by decide
  rw [hexPadded_succ (by decide), hexPadded_succ (by decide), hexPadded_succ (by decide),
    hone _ (by omega)]
  simp [Nat.div_div_eq_div_mul]

/-- Four digits are read back. -/
theorem unit?_hexPadded {n : Nat} (hn : n < 0x10000) (rest : List Char) :
    ∃ h, unit? (Text.hexPadded 4 n ++ rest) = some ⟨n, rest, h⟩ := by
  have hvalue : ((n / 4096 * 16 + n / 256 % 16) * 16 + n / 16 % 16) * 16 + n % 16 = n := by omega
  rw [hexPadded_four hn]
  simp only [List.cons_append, List.nil_append, unit?, hexValue?_digitChar (n / 4096) (by omega),
    hexValue?_digitChar (n / 256 % 16) (by omega), hexValue?_digitChar (n / 16 % 16) (by omega),
    hexValue?_digitChar (n % 16) (by omega), hvalue]
  exact ⟨by simp only [List.length_cons]; omega, trivial⟩

/-! ## Escapes -/

/-- No character lies in the range of the halves of pairs. -/
theorem toNat_ranges (c : Char) :
    c.toNat < 0xD800 ∨ 0xDFFF < c.toNat ∧ c.toNat < 0x110000 := c.valid

/-- A unit that is no half of a pair is read back as its character. -/
theorem isEscape_unit {c : Char} (hc : c.toNat < 0x10000) (rest : List Char) :
    IsEscape ('u' :: (Text.hexPadded 4 c.toNat ++ rest)) (.char c) rest := by
  obtain ⟨h, hunit⟩ := unit?_hexPadded hc rest
  have hranges := toNat_ranges c
  have hfirst : (decide (0xD800 ≤ c.toNat) && decide (c.toNat < 0xDC00)) = false := by
    simp; omega
  have hhalf : (decide (0xD800 ≤ c.toNat) && decide (c.toNat < 0xE000)) = false := by
    simp; omega
  refine ⟨Nat.lt_succ_of_lt h, ?_⟩
  simp only [escape?, hunit, hfirst, CodePoint.ofUnit, hhalf, ↓reduceIte, Bool.false_eq_true,
    Char.ofNat_toNat]

/-- The two halves of a pair are read back together. -/
theorem isEscape_halves {high low : Nat} {c : Char} (hhigh : 0xD800 ≤ high ∧ high < 0xDC00)
    (hlow : 0xDC00 ≤ low ∧ low < 0xE000)
    (hc : 0x10000 + (high - 0xD800) * 0x400 + (low - 0xDC00) = c.toNat) (rest : List Char) :
    IsEscape ('u' :: (Text.hexPadded 4 high ++ (unitEscape low ++ rest))) (.char c) rest := by
  obtain ⟨hltHigh, hunitHigh⟩ := unit?_hexPadded (by omega : high < 0x10000)
    (unitEscape low ++ rest)
  obtain ⟨hltLow, hunitLow⟩ := unit?_hexPadded (by omega : low < 0x10000) rest
  refine ⟨by simp only [List.length_cons, List.length_append]; omega, ?_⟩
  simp only [unitEscape, List.cons_append] at hunitHigh
  simp only [escape?, secondHalf?, unitEscape, List.cons_append, hunitHigh, hhigh, hunitLow, hlow,
    hc, decide_true, Bool.and_self, ↓reduceIte, Char.ofNat_toNat]

theorem isEscape_letter {c d : Char} (hc : c ≠ 'u') (h : letterEscape? c = some d)
    (rest : List Char) : IsEscape (c :: rest) (.char d) rest := by
  refine ⟨Nat.lt_succ_self _, ?_⟩
  simp only [escape?, hc, h, ↓reduceIte]

/-! ## Texts -/

section Step

variable {c : Char} {p : CodePoint} {rest rest₁ tail : List Char} {ps : List CodePoint}

theorem IsEscape.text (hp : IsEscape rest p rest₁) (ht : IsText rest₁ ps tail) :
    IsText ('\\' :: rest) (p :: ps) tail := by
  obtain ⟨h₁, hp⟩ := hp
  obtain ⟨h₂, ht⟩ := ht
  refine ⟨Nat.lt_succ_of_lt (h₂.trans h₁), ?_⟩
  rw [text?]
  simp [hp, ht]

theorem IsText.plain (hquote : c ≠ '"') (hslash : c ≠ '\\') (hc : ¬c.toNat < 0x20)
    (ht : IsText rest ps tail) : IsText (c :: rest) (.char c :: ps) tail := by
  obtain ⟨h, ht⟩ := ht
  refine ⟨Nat.lt_succ_of_lt h, ?_⟩
  rw [text?]
  simp only [hquote, hslash, hc, ht, ↓reduceIte]

theorem IsText.unit (hc : c.toNat < 0x10000) (ht : IsText rest ps tail) :
    IsText (unitEscape c.toNat ++ rest) (.char c :: ps) tail :=
  (isEscape_unit hc rest).text ht

theorem IsText.halves {high low : Nat} (hhigh : 0xD800 ≤ high ∧ high < 0xDC00)
    (hlow : 0xDC00 ≤ low ∧ low < 0xE000)
    (hc : 0x10000 + (high - 0xD800) * 0x400 + (low - 0xDC00) = c.toNat)
    (ht : IsText rest ps tail) :
    IsText (unitEscape high ++ unitEscape low ++ rest) (.char c :: ps) tail := by
  rw [List.append_assoc]
  exact (isEscape_halves hhigh hlow hc rest).text ht

/-- A written character is read back before any text. -/
theorem IsText.writeChar (c : Char) (ht : IsText rest ps tail) :
    IsText (writeChar c ++ rest) (.char c :: ps) tail := by
  have letter {l d : Char} (hu : l ≠ 'u') (hl : letterEscape? l = some d) :
      IsText ('\\' :: l :: rest) (.char d :: ps) tail := (isEscape_letter hu hl rest).text ht
  unfold Document.writeChar
  split_ifs with hself hn hr htab hb hf hplain hunit
  · simp only [Bool.or_eq_true, decide_eq_true_eq] at hself
    obtain rfl | rfl := hself
    · exact letter (by decide) rfl
    · exact letter (by decide) rfl
  · obtain rfl := hn
    exact letter (by decide) rfl
  · obtain rfl := hr
    exact letter (by decide) rfl
  · obtain rfl := htab
    exact letter (by decide) rfl
  · obtain rfl := hb
    exact letter (by decide) rfl
  · obtain rfl := hf
    exact letter (by decide) rfl
  · simp only [Bool.or_eq_true, decide_eq_true_eq, not_or] at hself
    simp only [Bool.and_eq_true, decide_eq_true_eq] at hplain
    exact ht.plain hself.1 hself.2 (Nat.not_lt.mpr hplain.1)
  · exact ht.unit hunit
  · have hranges := toNat_ranges c
    exact ht.halves (by omega) (by omega) (by omega)

end Step

/-- A string is read back up to its closing quotation mark. -/
theorem isText_flatMap_writePoint (cs tail : List Char) :
    IsText ((cs.map CodePoint.char).flatMap writePoint ++ '"' :: tail) (cs.map .char) tail := by
  induction cs with
  | nil =>
    rw [List.map_nil, List.flatMap_nil, List.nil_append]
    refine ⟨Nat.lt_succ_self _, ?_⟩
    rw [text?]
    simp
  | cons c cs ih =>
    rw [List.map_cons, List.flatMap_cons, List.append_assoc]
    exact ih.writeChar c

end Abacus.Document
