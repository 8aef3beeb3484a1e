import Abacus.Number.Dyadic
import Abacus.Number.Special

/-!
# Whole neighbours of a number

The whole numbers next to a number below, above and towards zero, and the nearest one. A zero result
has no sign, and infinity and what is no number stay as they are.
-/

namespace Abacus.Number

namespace Dyadic

/-- The mantissa with its sign. -/
def signedMantissa (d : Dyadic) : Int :=
  if d.negative then -(d.mantissa : Int) else d.mantissa

/-- The largest whole number that is not larger. -/
def floor (d : Dyadic) : Int :=
  d.signedMantissa * twoTo d.exponent.toNat / twoTo (-d.exponent).toNat

/-- The smallest whole number that is not smaller. -/
def ceil (d : Dyadic) : Int :=
  -(-(d.signedMantissa * twoTo d.exponent.toNat) / twoTo (-d.exponent).toNat)

end Dyadic

/-- Replaces a finite number by a whole one. -/
def toWhole (choose : Dyadic → Int) (x : Float) : Float :=
  match Dyadic.ofFloat? x with
  | some d => (Dyadic.ofInt (choose d)).toFloat
  | none => x

/-- The largest whole number that is not larger. -/
def floor (x : Float) : Float := toWhole Dyadic.floor x

/-- The smallest whole number that is not smaller. -/
def ceil (x : Float) : Float := toWhole Dyadic.ceil x

/-- The number without its fraction. -/
def truncate (x : Float) : Float := toWhole Dyadic.truncate x

/-- The nearest whole number; a half goes away from zero. -/
def round (x : Float) : Float :=
  if x.isFinite then
    let t := truncate x
    if (x - t).abs >= 0.5 then t + withSignOf x 1 else t
  else x

end Abacus.Number
