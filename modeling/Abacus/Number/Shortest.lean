import Abacus.Number.Dyadic

/-!
# The fewest digits that read back

The reals that round to a number form an interval around it, its ends included when the mantissa
is even. On the coarsest grid of multiples of a power of ten that meets the interval, the point
nearest to the number has the fewest digits of all decimals that read back as the number.
-/

namespace Abacus.Number

/-- The decimal `digits * 10 ^ exponent`. -/
structure Decimal where
  digits : Nat
  exponent : Int
deriving Repr, DecidableEq

/-- The reals that round to one number, as whole multiples of `2 ^ exponent`. -/
structure RoundingInterval where
  low : Nat
  value : Nat
  high : Nat
  exponent : Int
  ends : Bool
deriving Repr, DecidableEq

namespace RoundingInterval

/-- The interval of the positive number `m * 2 ^ e`. Below a power of two the numbers lie twice as
close, except at the very bottom of the range. -/
def of (m : Nat) (e : Int) : RoundingInterval :=
  let below := if m = twoTo 52 && -1074 < e then 1 else 2
  ⟨4 * m - below, 4 * m, 4 * m + 2, e - 2, m % 2 = 0⟩

/-- What a whole number of the interval is multiplied with to compare it with multiples of
`10 ^ k`. -/
def binaryScale (i : RoundingInterval) (k : Int) : Nat :=
  twoTo i.exponent.toNat * tenTo (-k).toNat

/-- What a multiple of `10 ^ k` is multiplied with to compare it with the interval. -/
def decimalScale (i : RoundingInterval) (k : Int) : Nat :=
  twoTo (-i.exponent).toNat * tenTo k.toNat

/-- Whether `c * 10 ^ k` lies in the interval. -/
def holds (i : RoundingInterval) (c : Nat) (k : Int) : Bool :=
  let point := c * i.decimalScale k
  let low := i.low * i.binaryScale k
  let high := i.high * i.binaryScale k
  if i.ends then low ≤ point && point ≤ high else low < point && point < high

/-- The grid point of `10 ^ k` in the interval that is nearest to the number; of two at the same
distance the even one. -/
def gridPoint? (i : RoundingInterval) (k : Int) : Option Nat :=
  let unit := i.decimalScale k
  let scaled := i.value * i.binaryScale k
  let below := scaled / unit
  match i.holds below k, i.holds (below + 1) k with
  | false, false => none
  | true, false => some below
  | false, true => some (below + 1)
  | true, true =>
    let rest := scaled % unit
    if 2 * rest < unit then some below
    else if 2 * rest = unit then some (below + below % 2)
    else some (below + 1)

/-- Looks on `count` grids, from `10 ^ k` on each ten times as fine as the one before. -/
def search (i : RoundingInterval) : Nat → Int → Option Decimal
  | 0, _ => none
  | count + 1, k =>
    match i.gridPoint? k with
    | some c => some ⟨c, k⟩
    | none => i.search count (k - 1)

end RoundingInterval

/-- Drops the zeros at the end of the digits, looking at `count` of them at most. -/
def Decimal.strip : Nat → Decimal → Decimal
  | 0, d => d
  | count + 1, d =>
    if d.digits % 10 = 0 then strip count ⟨d.digits / 10, d.exponent + 1⟩ else d

/-- The decimal with the fewest digits that reads back as the positive number `m * 2 ^ e`. The
first grid is coarser than the number, and seventeen digits always do. -/
def shortest (m : Nat) (e : Int) : Decimal :=
  let i := RoundingInterval.of m e
  let coarse := ((m.log2 : Int) + e + 2) * 30103 / 100000 + 1
  (((i.search 24 coarse).getD ⟨m, 0⟩).strip 24)

end Abacus.Number
