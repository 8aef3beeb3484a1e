import Abacus.Document.Reader
import Abacus.Document.Writer
import Abacus.Proofs.Number.PlainText

/-!
# Numerals in documents

A numeral has a sign, digits, maybe a point with digits and maybe an exponent. `Numeral.spell` is
its text and `Numeral.IsSpelled` tells which numerals have one.

* `Numeral.take_spell`: a numeral is read back before anything that does not go on with it.
* `Numeral.IsSpelled.read?`: its text by itself is read as the number that it stands for.
-/

namespace Abacus

namespace Document

/-- One digit or more. -/
structure IsDigits (cs : List Char) : Prop where
  nonempty : cs ≠ []
  digits : ∀ c ∈ cs, c.isDigit

theorem IsDigits.inText {cs : List Char} (h : IsDigits cs) : Number.InText cs := fun c hc =>
  List.mem_append_right _ (Number.mem_digits (h.digits c hc))

/-- What cannot go on with a numeral. -/
def Stops (rest : List Char) : Prop :=
  ∀ c ∈ rest.head?, c.isDigit = false ∧ c ≠ '.' ∧ c ≠ 'e' ∧ c ≠ 'E'

theorem stops_nil : Stops [] := fun c hc => by cases hc

namespace Numeral

/-- The text of a sign. -/
def spellSign (negative : Bool) : List Char := if negative then ['-'] else []

/-- The text of the digits behind the point, with the point. -/
def spellFraction : Option (List Char) → List Char
  | none => []
  | some digits => '.' :: digits

/-- The text of an exponent, with its letter and always a sign. -/
def spellExponent : Option (Bool × List Char) → List Char
  | none => []
  | some (negative, digits) => 'e' :: (if negative then '-' else '+') :: digits

/-- The text of a numeral without its sign. -/
def spellSize (n : Numeral) : List Char :=
  n.whole ++ (spellFraction n.fraction ++ spellExponent n.exponent)

/-- The text of a numeral. -/
def spell (n : Numeral) : List Char := spellSign n.negative ++ n.spellSize

/-- The parts of a numeral are digits, with no zero in front of others. -/
structure IsSpelled (n : Numeral) : Prop where
  whole : IsDigits n.whole
  leading : n.whole.head? = some '0' → n.whole = ['0']
  fraction : ∀ digits ∈ n.fraction, IsDigits digits
  exponent : ∀ e ∈ n.exponent, IsDigits e.2

/-- The power of ten that the last digit before the point counts. -/
def scale (n : Numeral) : Int :=
  match n.exponent with
  | none => 0
  | some (true, digits) => -(Number.ofDigits digits : Int)
  | some (false, digits) => Number.ofDigits digits

/-- The size of a numeral as a number. -/
def size (n : Numeral) : Float :=
  let places := n.fraction.getD []
  Number.ofDecimal (Number.ofDigits (n.whole ++ places)) (n.scale - places.length)

/-- A numeral as a number. -/
def number (n : Numeral) : Float := if n.negative then -n.size else n.size

/-- With a point or an exponent a numeral is not a whole number. -/
theorem value_eq {n : Numeral} (h : n.fraction.isSome ∨ n.exponent.isSome) :
    n.value = .ok (.float n.number) := by
  obtain ⟨negative, whole, fraction, exponent⟩ := n
  cases fraction with
  | some digits => rfl
  | none =>
    cases exponent with
    | some e => rfl
    | none => simp at h

/-! ## The start of a text -/

section Take

variable {rest : List Char}

theorem takeWhole_append {whole : List Char} (hw : IsDigits whole)
    (hlead : whole.head? = some '0' → whole = ['0'])
    (hrest : ∀ c ∈ rest.head?, c.isDigit = false) : takeWhole (whole ++ rest) = (whole, rest) := by
  obtain ⟨htake, hdrop⟩ := Number.takeWhile_digits rest hw.digits hrest
  cases whole with
  | nil => exact absurd rfl hw.nonempty
  | cons c ds =>
    rw [List.cons_append] at htake hdrop ⊢
    rw [takeWhole]
    split
    · rename_i hc
      have hds := hlead (by rw [hc]; rfl)
      rw [List.cons.injEq] at hds
      rw [hds.2, List.nil_append]
    · rw [htake, hdrop]

theorem takeFraction_append {fraction : Option (List Char)}
    (hf : ∀ digits ∈ fraction, IsDigits digits)
    (hrest : ∀ c ∈ rest.head?, c.isDigit = false ∧ c ≠ '.') :
    takeFraction (spellFraction fraction ++ rest) = (fraction, rest) := by
  cases fraction with
  | none =>
    rw [spellFraction, List.nil_append, takeFraction]
    rintro c cs rfl
    exact (hrest '.' rfl).2 rfl
  | some digits =>
    have hdigits := hf digits rfl
    obtain ⟨htake, hdrop⟩ := Number.takeWhile_digits rest hdigits.digits fun c hc => (hrest c hc).1
    cases digits with
    | nil => exact absurd rfl hdigits.nonempty
    | cons c ds =>
      have hc := hdigits.digits c List.mem_cons_self
      rw [List.cons_append] at htake hdrop
      simp only [spellFraction, List.cons_append, takeFraction, hc, htake, hdrop, ↓reduceIte]

theorem takeExponent_append {exponent : Option (Bool × List Char)}
    (he : ∀ e ∈ exponent, IsDigits e.2) (hrest : Stops rest) :
    takeExponent (spellExponent exponent ++ rest) = (exponent, rest) := by
  cases exponent with
  | none =>
    rw [spellExponent, List.nil_append]
    cases rest with
    | nil => rfl
    | cons c cs =>
      obtain ⟨-, -, hlower, hupper⟩ := hrest c rfl
      simp [takeExponent, hlower, hupper]
  | some e =>
    obtain ⟨negative, digits⟩ := e
    have hdigits := he _ rfl
    obtain ⟨htake, hdrop⟩ := Number.takeWhile_digits rest hdigits.digits fun c hc =>
      (hrest c hc).1
    have hsign : takeSign ((if negative then '-' else '+') :: (digits ++ rest)) =
        (negative, digits ++ rest) := by cases negative <;> rfl
    simp [spellExponent, takeExponent, hsign, htake, hdrop, hdigits.nonempty]

/-- Behind the point of a numeral stands no digit and no second point. -/
theorem head_spellExponent (exponent : Option (Bool × List Char)) (hrest : Stops rest) :
    ∀ c ∈ (spellExponent exponent ++ rest).head?, c.isDigit = false ∧ c ≠ '.' := by
  cases exponent with
  | none => exact fun c hc => ⟨(hrest c hc).1, (hrest c hc).2.1⟩
  | some e =>
    intro c hc
    cases hc
    exact ⟨by decide, by decide⟩

/-- Behind the digits before the point stands no digit. -/
theorem head_spellFraction (fraction : Option (List Char)) {cs : List Char}
    (hcs : ∀ c ∈ cs.head?, c.isDigit = false) :
    ∀ c ∈ (spellFraction fraction ++ cs).head?, c.isDigit = false := by
  cases fraction with
  | none => exact hcs
  | some digits =>
    intro c hc
    cases hc
    decide

theorem IsSpelled.head_spellSize {n : Numeral} (h : n.IsSpelled) (rest : List Char) :
    ∃ c cs, n.spellSize ++ rest = c :: cs ∧ c.isDigit := by
  cases hw : n.whole with
  | nil => exact absurd hw h.whole.nonempty
  | cons c ds =>
    refine ⟨c, ds ++ (spellFraction n.fraction ++ spellExponent n.exponent) ++ rest, ?_,
      h.whole.digits c (by simp [hw])⟩
    simp [spellSize, hw]

/-- A numeral is read back from the start of a text that does not go on with it. -/
theorem take_spell {n : Numeral} (h : n.IsSpelled) (hrest : Stops rest) :
    take (n.spell ++ rest) = (n, rest) := by
  have hexponent := head_spellExponent n.exponent hrest
  have hfraction := head_spellFraction n.fraction fun c hc => (hexponent c hc).1
  have hwhole : takeWhole (n.spellSize ++ rest) =
      (n.whole, spellFraction n.fraction ++ (spellExponent n.exponent ++ rest)) := by
    rw [spellSize, List.append_assoc, List.append_assoc]
    exact takeWhole_append h.whole h.leading hfraction
  have hplaces := takeFraction_append h.fraction hexponent
  have hpower := takeExponent_append h.exponent hrest
  rw [spell]
  cases hsign : n.negative with
  | true =>
    rw [spellSign, if_pos rfl, List.append_assoc, List.singleton_append, take]
    simp only [hwhole, hplaces, hpower, ← hsign]
  | false =>
    obtain ⟨c, cs, heq, hc⟩ := h.head_spellSize rest
    rw [spellSign, if_neg (by decide), List.nil_append, take]
    · simp only [hwhole, hplaces, hpower, ← hsign]
    · rintro ds hds
      rw [heq, List.cons.injEq] at hds
      rw [hds.1] at hc
      exact absurd hc (by decide)

end Take

/-! ## Numerals by themselves -/

section Read

variable {n : Numeral}

theorem IsSpelled.inText_spellSize (h : n.IsSpelled) : Number.InText n.spellSize := by
  have hfraction : Number.InText (spellFraction n.fraction) := by
    cases hn : n.fraction with
    | none => exact fun c hc => by cases hc
    | some digits => exact Number.inText_cons.mpr ⟨by decide, (h.fraction digits hn).inText⟩
  have hexponent : Number.InText (spellExponent n.exponent) := by
    cases hn : n.exponent with
    | none => exact fun c hc => by cases hc
    | some e =>
      obtain ⟨negative, digits⟩ := e
      refine Number.inText_cons.mpr ⟨by decide, Number.inText_cons.mpr ⟨?_, ?_⟩⟩
      · cases negative <;> decide
      · exact (h.exponent _ hn).inText
  exact Number.inText_append.mpr ⟨h.whole.inText, Number.inText_append.mpr ⟨hfraction, hexponent⟩⟩

/-- A written exponent is read as the power of ten that it stands for. -/
theorem IsSpelled.readExponent? (h : n.IsSpelled) {e : Bool × List Char}
    (he : n.exponent = some e) :
    Number.readExponent? ((if e.1 then '-' else '+') :: e.2) = some n.scale := by
  have hdigits := h.exponent e he
  have hall : e.2.all Char.isDigit = true := List.all_eq_true.mpr hdigits.digits
  obtain ⟨negative, digits⟩ := e
  cases negative with
  | true => simp [Number.readExponent?, scale, he, hdigits.nonempty, hall]
  | false => simp [Number.readExponent?, scale, he, hdigits.nonempty, hall]

theorem IsSpelled.readDecimal? (h : n.IsSpelled) :
    Number.readDecimal? n.spellSize = some n.size := by
  have hdigit : ∀ c ∈ (spellExponent n.exponent).head?, c.isDigit = false := by
    have hhead := head_spellExponent n.exponent stops_nil
    rw [List.append_nil] at hhead
    exact fun c hc => (hhead c hc).1
  obtain ⟨htake, hdrop⟩ := Number.takeWhile_digits _ h.whole.digits
    (head_spellFraction n.fraction hdigit)
  have hne : ∀ places, (n.whole ++ places).isEmpty = false := by simp [h.whole.nonempty]
  rw [Number.readDecimal?, spellSize]
  simp only [htake, hdrop, hne, size]
  cases hf : n.fraction with
  | none =>
    cases he : n.exponent with
    | none => simp [spellFraction, spellExponent, scale, he]
    | some e => simp [spellFraction, spellExponent, h.readExponent? he]
  | some places =>
    obtain ⟨htake, hdrop⟩ := Number.takeWhile_digits _ (h.fraction places hf).digits hdigit
    simp only [spellFraction, List.cons_append, htake, hdrop]
    cases he : n.exponent with
    | none => simp [spellExponent, scale, he]
    | some e => simp [spellExponent, h.readExponent? he]

/-- By itself the text of a numeral is read as the number that the numeral stands for. -/
theorem IsSpelled.read? (h : n.IsSpelled) :
    Number.read? (String.ofList n.spell) = some n.number := by
  have hsize : Number.readUnsigned? n.spellSize = some n.size := by
    obtain ⟨c, cs, heq, hc⟩ := h.head_spellSize []
    rw [List.append_nil] at heq
    rw [heq, Number.readUnsigned?_of_digit hc, ← heq, h.readDecimal?]
  rw [Number.read?, String.toList_ofList, spell, number]
  cases n.negative with
  | true =>
    have hclean := (Number.inText_cons.mpr ⟨(by decide : '-' ∈ Number.textChars),
      h.inText_spellSize⟩).cleaned
    rw [spellSign, if_pos rfl, List.singleton_append, hclean]
    simp only [hsize, Option.map_some, ↓reduceIte]
    rfl
  | false =>
    obtain ⟨c, cs, heq, hc⟩ := h.head_spellSize []
    have hsign : ∀ d ∈ Number.asciiDigits, d ≠ '-' ∧ d ≠ '+' :=
      List.all_iff_forall_prop.mp (by decide)
    obtain ⟨hminus, hplus⟩ := hsign c (Number.mem_digits hc)
    rw [List.append_nil] at heq
    rw [spellSign, if_neg (by decide), List.nil_append, h.inText_spellSize.cleaned]
    rw [heq] at hsize ⊢
    split
    · rename_i hcs; cases hcs
    · rename_i hcs; cases hcs; exact absurd rfl hminus
    · rename_i hcs; cases hcs; exact absurd rfl hplus
    · rename_i hcs; cases hcs; rw [hsize]; rfl

end Read

end Numeral

end Document

end Abacus
