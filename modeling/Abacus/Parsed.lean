/-!
# Values read from the start of a list

A reader of tokens or characters gives a value and the rest of its input. That the rest is shorter
is part of the type, so that readers may call one another and still end.
-/

namespace Abacus

/-- A value read from the start of `input`, with what is left behind it. -/
structure Parsed {σ : Type} (α : Type) (input : List σ) where
  value : α
  rest : List σ
  shorter : rest.length < input.length

theorem length_lt_cons {σ : Type} (x : σ) {rest input : List σ} (h : rest.length < input.length) :
    rest.length < (x :: input).length :=
  Nat.lt_succ_of_lt h

theorem length_dropWhile_le {σ : Type} (p : σ → Bool) (input : List σ) :
    (input.dropWhile p).length ≤ input.length :=
  (List.dropWhile_sublist p).length_le

end Abacus
