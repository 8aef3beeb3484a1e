import Abacus.Proofs.Document.Numbers
import Abacus.Proofs.Number.Decimals

/-!
# The text of a number reads back

The digits of a finite number round to it (`roundsTo_digitsOf`), and a decimal is read as the number
it rounds to. So the text of any number is read as the same number (`readsBack`).
-/

namespace Abacus.Number

open Document (Numeral)

variable {negative : Bool} {b : Nat}

theorem roundsTo_digitsOf (negative : Bool) (h : b < infinityBits) :
    RoundsTo (Numeral.digitsOf
      ⟨negative, bitsMantissa b, (bitsScale b : Int) - 1074⟩).value b := by
  rw [Numeral.digitsOf]
  split
  · rename_i hm
    have hzero : b = 0 := Nat.eq_zero_of_not_pos fun h0 => (bitsMantissa_pos h0).ne' hm
    have hvalue : Decimal.value ⟨0, 0⟩ = 0 := by simp [Decimal.value]
    rw [hzero, hvalue, ← bitsValue_zero]
    exact roundsTo_bitsValue 0
  · rename_i hm
    have h0 : 0 < b := by
      refine Nat.pos_of_ne_zero fun h0 => hm ?_
      rw [h0]
      rfl
    exact roundsTo_shortest h0 h

/-- The numeral that writes a finite number stands for it. -/
theorem number_of_writes {n : Numeral} (h : b < infinityBits)
    (hn : n.Writes negative (Numeral.digitsOf
      ⟨negative, bitsMantissa b, (bitsScale b : Int) - 1074⟩)) :
    n.number = withBits negative b := by
  have hround := roundsTo_digitsOf negative h
  rw [← hn.size] at hround
  have hsize : n.size = withBits false b := by
    rw [Numeral.size, ofDecimal_of_roundsTo hround, min_eq_left h.le]
  rw [Numeral.number, hn.sign, hsize]
  cases negative with
  | true => rw [if_pos rfl, neg_withBits h.le]
  | false => rw [if_neg Bool.false_ne_true]

/-- The text of a number is read as the number. -/
theorem readsBack (x : Float) : ReadsBack x := by
  intro hnan
  obtain ⟨negative, b, hb, rfl⟩ := exists_withBits hnan
  rcases hb.lt_or_eq with hlt | rfl
  · obtain ⟨n, hn, htext, -⟩ := Numeral.exists_numeral (ofFloat?_withBits negative hlt)
    rw [htext, hn.read?, number_of_writes hlt hn]
  · cases negative <;> decide +kernel

end Abacus.Number
