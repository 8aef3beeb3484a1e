/-!
# Code points

A text in a document may hold halves of pairs of units of sixteen bits that stand alone, which no
`String` can hold. It is kept as the list of its code points. Texts that are strings are written as
strings; `Text.string?_eq_some_iff` tells which they are.
-/

namespace Abacus

/-- A code point: a character, or a half of a pair of units, counted from `0xD800`. -/
inductive CodePoint where
  | char (c : Char)
  | half (offset : Fin 0x800)
deriving Repr, DecidableEq, Inhabited

namespace CodePoint

/-- The code point of a unit of sixteen bits that is not joined with another one. -/
def ofUnit (n : Nat) : CodePoint :=
  if 0xD800 ≤ n && n < 0xE000 then half (Fin.ofNat 0x800 (n - 0xD800)) else char (Char.ofNat n)

/-- The character, unless the code point is a half of a pair. -/
def char? : CodePoint → Option Char
  | char c => some c
  | half _ => none

end CodePoint

namespace Text

/-- The code points of a string. -/
def points (s : String) : List CodePoint := s.toList.map .char

instance : Coe String (List CodePoint) := ⟨points⟩

/-- The characters that code points are, if none is a half of a pair. -/
def chars? : List CodePoint → Option (List Char)
  | [] => some []
  | .char c :: ps => (chars? ps).map (c :: ·)
  | .half _ :: _ => none

/-- The string with the given code points, if none is a half of a pair. -/
def string? (ps : List CodePoint) : Option String := (chars? ps).map String.ofList

theorem chars?_eq_some_iff {ps : List CodePoint} {cs : List Char} :
    chars? ps = some cs ↔ ps = cs.map .char := by
  induction ps generalizing cs with
  | nil => cases cs <;> simp [chars?]
  | cons p ps ih =>
    cases p with
    | half n => cases cs <;> simp [chars?]
    | char c =>
      rw [chars?, Option.map_eq_some_iff]
      constructor
      · rintro ⟨cs, hcs, rfl⟩
        rw [ih.mp hcs, List.map_cons]
      · intro h
        cases cs with
        | nil => cases h
        | cons d cs =>
          obtain ⟨hc, hcs⟩ := List.cons.inj h
          exact ⟨cs, ih.mpr hcs, by rw [CodePoint.char.inj hc]⟩

/-- The texts that are strings are the code points of strings. -/
theorem string?_eq_some_iff {ps : List CodePoint} {s : String} :
    string? ps = some s ↔ ps = points s := by
  simp only [string?, points, Option.map_eq_some_iff, chars?_eq_some_iff]
  constructor
  · rintro ⟨cs, rfl, rfl⟩
    rw [String.toList_ofList]
  · exact fun h => ⟨s.toList, h, String.ofList_toList⟩

@[simp] theorem string?_points (s : String) : string? (points s) = some s :=
  string?_eq_some_iff.mpr rfl

@[simp] theorem points_inj {s t : String} : points s = points t ↔ s = t := by
  constructor
  · intro h
    have hs := string?_points s
    rw [h, string?_points t] at hs
    exact (Option.some.inj hs).symm
  · exact congrArg points

end Text

end Abacus
