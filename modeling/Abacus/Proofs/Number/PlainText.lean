import Abacus.Number.Text
import Abacus.Proofs.Number.Numeral

/-!
# The characters of the text of a number

A number is written with digits, signs, a point and a few letters (`inText_plain`), so that its text
has no blanks, comments or line breaks in it.
-/

namespace Abacus.Number

/-- The characters that the text of a number is made from. -/
def textChars : List Char := ['.', '-', '+', 'e', 'i', 'n', 'f', 'a'] ++ asciiDigits

/-- All characters are characters of numbers. -/
def InText (cs : List Char) : Prop := ∀ c ∈ cs, c ∈ textChars

theorem inText_append {cs ds : List Char} : InText (cs ++ ds) ↔ InText cs ∧ InText ds :=
  List.forall_mem_append

/-- Membership in the alphabet is asked of one character at a time. -/
theorem inText_cons {c : Char} {cs : List Char} : InText (c :: cs) ↔ c ∈ textChars ∧ InText cs :=
  List.forall_mem_cons

theorem inText_toDigits (n : Nat) : InText (Nat.toDigits 10 n) := by
  intro c hc
  have hdigit := Nat.isDigit_of_mem_toDigits (by decide) (by decide) hc
  exact List.mem_append_right _ (mem_digits hdigit)

theorem inText_of_all {cs : List Char} (h : (cs.all fun c => c ∈ textChars) = true) : InText cs :=
  List.all_iff_forall_prop.mp h

theorem InText.sublist {cs ds : List Char} (h : InText ds) (hs : cs.Sublist ds) : InText cs :=
  fun c hc => h c (hs.subset hc)

theorem inText_zeros (n : Nat) : InText (Layout.zeros n) := by
  intro c hc
  rw [(List.mem_replicate.mp hc).2]
  decide

theorem inText_positional {digits : List Char} (h : InText digits) (e : Int) :
    InText (standardLayout.positional digits e) := by
  have htail : InText standardLayout.wholeTail.toList := inText_of_all (by decide)
  unfold Layout.positional
  split
  · exact inText_cons.mpr ⟨by decide, inText_cons.mpr ⟨by decide,
      inText_append.mpr ⟨inText_zeros _, h⟩⟩⟩
  · dsimp only
    split
    · exact inText_append.mpr ⟨inText_append.mpr ⟨h, inText_zeros _⟩, htail⟩
    · exact inText_append.mpr ⟨h.sublist (List.take_sublist _ _),
        inText_cons.mpr ⟨by decide, h.sublist (List.drop_sublist _ _)⟩⟩

theorem inText_scientific {digits : List Char} (h : InText digits) (e : Int) :
    InText (standardLayout.scientific digits e) := by
  have hmark : InText standardLayout.exponentMark.toList := inText_of_all (by decide)
  have hsign : InText [if e < 0 then '-' else '+'] := by
    split
    · exact inText_of_all (by decide)
    · exact inText_of_all (by decide)
  have hfraction : InText (if (digits.drop 1).isEmpty then [] else '.' :: digits.drop 1) := by
    split
    · exact fun c hc => by cases hc
    · exact inText_cons.mpr ⟨by decide, h.sublist (List.drop_sublist _ _)⟩
  simp only [Layout.scientific, inText_append]
  exact ⟨⟨⟨⟨⟨h.sublist (List.take_sublist _ _), hfraction⟩, hmark⟩, hsign⟩, inText_zeros _⟩,
    inText_toDigits _⟩

/-- A printed number has only characters of the alphabet, whichever layout was chosen for it. -/
theorem inText_text (x : Float) : InText (text x).toList := by
  have htail : InText standardLayout.wholeTail.toList := inText_of_all (by decide)
  unfold text Layout.write
  split
  · split
    · exact inText_of_all (by decide)
    · split
      · exact inText_of_all (by decide)
      · exact inText_of_all (by decide)
  · rename_i d _
    rw [String.toList_ofList, inText_append]
    constructor
    · split
      · exact inText_of_all (by decide)
      · exact fun c hc => by cases hc
    · split
      · exact inText_cons.mpr ⟨by decide, htail⟩
      · rw [Layout.decimal]
        split
        · exact inText_positional (inText_toDigits _) _
        · exact inText_scientific (inText_toDigits _) _

theorem inText_int (n : Int) : InText (toString n).toList := by
  cases n with
  | ofNat m =>
    change InText (Nat.repr m).toList
    rw [Nat.repr, String.toList_ofList]
    exact inText_toDigits m
  | negSucc m =>
    change InText ("-" ++ Nat.repr (m + 1)).toList
    rw [Nat.repr, String.toList_append, inText_append]
    refine ⟨inText_of_all (by decide), ?_⟩
    rw [String.toList_ofList]
    exact inText_toDigits _

/-- Nothing in such a text is padding, a digit of another script or an underscore. -/
theorem InText.cleaned {cs : List Char} (h : InText cs) :
    dropUnderscores false ((trimPadding cs).map plainDigit) = some cs := by
  have hchars : ∀ c ∈ textChars, plainDigit c = id c ∧ Text.isPadding c = false ∧ c ≠ '_' :=
    List.all_iff_forall_prop.mp (by decide)
  rw [trimPadding_eq fun c hc => (hchars c (h c hc)).2.1,
    List.map_congr_left fun c hc => (hchars c (h c hc)).1, List.map_id,
    dropUnderscores_eq fun c hc => (hchars c (h c hc)).2.2]

/-- The text of a number in programs has no other characters. -/
theorem inText_plain (x : Float) : InText (plain x).toList := by
  unfold plain
  split
  · split
    · exact inText_int _
    · exact inText_text x
  · exact inText_text x

end Abacus.Number
