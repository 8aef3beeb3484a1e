import Abacus.Proofs.Program.Spelling
import Mathlib.Data.List.Basic

/-!
# Which parenthesis has no partner

The check of the parentheses keeps those that are open on a stack. What it finds is said here
without the stack: by counting, and by the usual matching, where an opening and a closing
parenthesis are partners if the parentheses between them are nested.

* `LeavesOpen`: open parentheses with nested tokens between them, which is what the stack stands for
  (`Balance.offenderFrom_spec`).
* `LeavesOpen.opensFirst`, `LeavesOpen.opening_eq`: so the stack counts.
* `LeavesOpen.lastAlone`: so its top is the last parenthesis without a partner.
* `Balance.check_blames`: the three outcomes of the check.
-/

namespace Abacus

/-! ## Counting and matching -/

/-- Every parenthesis among the tokens has its partner among them. -/
inductive Nested : List Token → Prop
  | nil : Nested []
  | other {t : Token} {ts : List Token} (hl : t.is .delimiter "(" = false)
      (hr : t.is .delimiter ")" = false) (hts : Nested ts) : Nested (t :: ts)
  | pair {l r : Token} {ts us : List Token} (hl : l.is .delimiter "(") (hts : Nested ts)
      (hr : r.is .delimiter ")") (hus : Nested us) : Nested (l :: (ts ++ r :: us))

namespace Token

/-- The number of opening parentheses. -/
def opening (ts : List Token) : Nat := ts.countP (·.is .delimiter "(")

/-- The number of closing parentheses. -/
def closing (ts : List Token) : Nat := ts.countP (·.is .delimiter ")")

/-- No prefix has more closing than opening parentheses. -/
def OpensFirst (ts : List Token) : Prop := ∀ k, closing (ts.take k) ≤ opening (ts.take k)

instance : DecidablePred OpensFirst := fun ts =>
  decidable_of_iff (∀ k < ts.length + 1, closing (ts.take k) ≤ opening (ts.take k)) <| by
    refine ⟨fun h k => ?_, fun h k _ => h k⟩
    have hk := h (min k ts.length) (by omega)
    rwa [← List.take_eq_take_min] at hk

/-- The token at `i` is the last one of the shortest prefix that has more closing than opening
parentheses. -/
def ClosesTooMuch (ts : List Token) (i : Nat) : Prop :=
  opening (ts.take (i + 1)) < closing (ts.take (i + 1)) ∧
    ∀ k ≤ i, closing (ts.take k) ≤ opening (ts.take k)

/-- The tokens at `i` and `j` are an opening and a closing parenthesis that belong together. -/
def Partners (ts : List Token) (i j : Nat) : Prop :=
  ∃ before l between r behind, ts = before ++ l :: (between ++ r :: behind) ∧
    before.length = i ∧ i + between.length + 1 = j ∧ l.is .delimiter "(" ∧ Nested between ∧
    r.is .delimiter ")"

/-- The token at `i` is an opening parenthesis without a partner. -/
def Alone (ts : List Token) (i : Nat) : Prop :=
  (∃ l, ts[i]? = some l ∧ l.is .delimiter "(") ∧ ∀ j, ¬ Partners ts i j

/-- The token at `i` is the last opening parenthesis without a partner. -/
def LastAlone (ts : List Token) (i : Nat) : Prop := Alone ts i ∧ ∀ j, Alone ts j → j ≤ i

variable {ts us : List Token} {t l r : Token} {i j : Nat}

/-! ### Counts -/

theorem opening_append (ts us : List Token) : opening (ts ++ us) = opening ts + opening us :=
  List.countP_append

theorem closing_append (ts us : List Token) : closing (ts ++ us) = closing ts + closing us :=
  List.countP_append

/-- An opening parenthesis counts as one, and as none that closes. -/
theorem counts_cons_open (ts : List Token) (hl : l.is .delimiter "(") :
    opening (l :: ts) = opening ts + 1 ∧ closing (l :: ts) = closing ts := by
  have hr : l.is .delimiter ")" = false := is_of_text_ne hl (by decide)
  simp [opening, closing, hl, hr]

theorem counts_cons_close (ts : List Token) (hr : r.is .delimiter ")") :
    opening (r :: ts) = opening ts ∧ closing (r :: ts) = closing ts + 1 := by
  have hl : r.is .delimiter "(" = false := is_of_text_ne hr (by decide)
  simp [opening, closing, hl, hr]

theorem counts_cons_other (ts : List Token) (hl : t.is .delimiter "(" = false)
    (hr : t.is .delimiter ")" = false) :
    opening (t :: ts) = opening ts ∧ closing (t :: ts) = closing ts := by
  simp [opening, closing, hl, hr]

theorem counts_concat_close (ts : List Token) (hr : r.is .delimiter ")") :
    opening (ts ++ [r]) = opening ts ∧ closing (ts ++ [r]) = closing ts + 1 := by
  obtain ⟨hopening, hclosing⟩ := counts_cons_close [] hr
  rw [opening_append, closing_append, hopening, hclosing]
  exact ⟨rfl, rfl⟩

theorem OpensFirst.append (hts : OpensFirst ts) (hus : OpensFirst us) :
    OpensFirst (ts ++ us) := by
  intro k
  rw [List.take_append, opening_append, closing_append]
  exact Nat.add_le_add (hts k) (hus (k - ts.length))

theorem OpensFirst.open (hl : l.is .delimiter "(") (hts : OpensFirst ts) :
    OpensFirst (l :: ts) := by
  intro k
  cases k with
  | zero => exact Nat.le_refl 0
  | succ k =>
    obtain ⟨hopening, hclosing⟩ := counts_cons_open (ts.take k) hl
    have hk := hts k
    rw [List.take_succ_cons]
    omega

theorem ClosesTooMuch.not_opensFirst (h : ClosesTooMuch ts i) : ¬ OpensFirst ts :=
  fun hfirst => Nat.not_le_of_lt h.1 (hfirst (i + 1))

theorem ClosesTooMuch.unique (hi : ClosesTooMuch ts i) (hj : ClosesTooMuch ts j) :
    i = j := by
  rcases Nat.lt_trichotomy i j with hlt | heq | hlt
  · exact absurd (hj.2 (i + 1) hlt) (Nat.not_le_of_lt hi.1)
  · exact heq
  · exact absurd (hi.2 (j + 1) hlt) (Nat.not_le_of_lt hj.1)

/-! ### Partners -/

theorem Partners.append_left (ts : List Token) (h : Partners us i j) :
    Partners (ts ++ us) (ts.length + i) (ts.length + j) := by
  obtain ⟨before, l, between, r, behind, rfl, rfl, rfl, hl, hbetween, hr⟩ := h
  exact ⟨ts ++ before, l, between, r, behind, by simp, by simp, by omega, hl, hbetween, hr⟩

theorem Partners.append_right (us : List Token) (h : Partners ts i j) :
    Partners (ts ++ us) i j := by
  obtain ⟨before, l, between, r, behind, rfl, rfl, rfl, hl, hbetween, hr⟩ := h
  exact ⟨before, l, between, r, behind ++ us, by simp, rfl, rfl, hl, hbetween, hr⟩

theorem Partners.cons (t : Token) (h : Partners ts i j) : Partners (t :: ts) (i + 1) (j + 1) := by
  simpa only [List.singleton_append, List.length_singleton, Nat.add_comm 1] using h.append_left [t]

end Token

open Token (opening closing OpensFirst ClosesTooMuch Partners Alone LastAlone)

variable {ts us opened : List Token} {t l r : Token} {i : Nat}

/-! ## Nested tokens -/

namespace Nested

theorem append (hts : Nested ts) (hus : Nested us) : Nested (ts ++ us) := by
  induction hts with
  | nil => exact hus
  | other hl hr _ ih => exact .other hl hr ih
  | @pair l r ts us' hl hts hr _ _ ih =>
    rw [show l :: (ts ++ r :: us') ++ us = l :: (ts ++ r :: (us' ++ us)) by simp]
    exact .pair hl hts hr ih

theorem opening_eq (hts : Nested ts) : opening ts = closing ts := by
  induction hts with
  | nil => rfl
  | other hl hr _ ih =>
    obtain ⟨hopening, hclosing⟩ := Token.counts_cons_other _ hl hr
    rw [hopening, hclosing, ih]
  | @pair l r ts us hl _ hr _ ihts ihus =>
    obtain ⟨hopening, hclosing⟩ := Token.counts_cons_open (ts ++ r :: us) hl
    obtain ⟨hopening', hclosing'⟩ := Token.counts_cons_close us hr
    rw [Token.opening_append] at hopening
    rw [Token.closing_append] at hclosing
    omega

theorem opensFirst (hts : Nested ts) : OpensFirst ts := by
  induction hts with
  | nil => exact fun k => by rw [List.take_nil]; exact Nat.le_refl 0
  | @other t ts hl hr _ ih =>
    intro k
    cases k with
    | zero => exact Nat.le_refl 0
    | succ k =>
      obtain ⟨hopening, hclosing⟩ := Token.counts_cons_other (ts.take k) hl hr
      rw [List.take_succ_cons, hopening, hclosing]
      exact ih k
  | @pair l r ts us hl hts hr _ ihts ihus =>
    intro k
    cases k with
    | zero => exact Nat.le_refl 0
    | succ k =>
      obtain ⟨hopening, hclosing⟩ := Token.counts_cons_open ((ts ++ r :: us).take k) hl
      rw [List.take_succ_cons, hopening, hclosing, List.take_append, Token.opening_append,
        Token.closing_append]
      have hfirst := ihts k
      cases hk : k - ts.length with
      | zero => exact Nat.le_succ_of_le hfirst
      | succ m =>
        -- The closing one counts against the opening one in front.
        obtain ⟨hopening', hclosing'⟩ := Token.counts_cons_close (us.take m) hr
        have hsecond := ihus m
        rw [List.take_succ_cons]
        omega

/-- In nested tokens every opening parenthesis has a partner. -/
theorem partner (hts : Nested ts) (hi : ts[i]? = some l) (hl : l.is .delimiter "(") :
    ∃ j, Partners ts i j := by
  induction hts generalizing i with
  | nil => cases hi
  | other hl' _ _ ih =>
    cases i with
    | zero =>
      cases hi
      rw [hl] at hl'
      cases hl'
    | succ i =>
      obtain ⟨j, hj⟩ := ih hi
      exact ⟨j + 1, hj.cons _⟩
  | @pair l' r ts us hl' hts hr _ ihts ihus =>
    cases i with
    | zero => exact ⟨_, [], l', ts, r, us, rfl, rfl, rfl, hl', hts, hr⟩
    | succ i =>
      rw [List.getElem?_cons_succ] at hi
      -- The bracket lies inside the pair, is its closing one, or lies behind it.
      rcases Nat.lt_trichotomy i ts.length with hlt | rfl | hgt
      · rw [List.getElem?_append_left hlt] at hi
        obtain ⟨j, hj⟩ := ihts hi
        exact ⟨j + 1, (hj.append_right _).cons l'⟩
      · rw [List.getElem?_append_right (Nat.le_refl _), Nat.sub_self] at hi
        cases hi
        rw [Token.is_of_text_ne hr (by decide)] at hl
        cases hl
      · obtain ⟨k, rfl⟩ := Nat.exists_eq_add_of_lt hgt
        rw [List.getElem?_append_right (by omega), show ts.length + k + 1 - ts.length = k + 1 by
          omega, List.getElem?_cons_succ] at hi
        obtain ⟨j, hj⟩ := ihus hi
        exact ⟨_, ((hj.cons r).append_left ts).cons l'⟩

end Nested

/-! ## What is left open -/

/-- The tokens leave parentheses open, the innermost first: in front of each of them, and behind the
innermost, the tokens are nested. -/
inductive LeavesOpen : List Token → List Token → Prop
  | nested {ts : List Token} (hts : Nested ts) : LeavesOpen ts []
  | more {l : Token} {ts us opened : List Token} (hts : LeavesOpen ts opened)
      (hl : l.is .delimiter "(") (hus : Nested us) : LeavesOpen (ts ++ l :: us) (l :: opened)

namespace LeavesOpen

theorem append (h : LeavesOpen ts opened) (hus : Nested us) : LeavesOpen (ts ++ us) opened := by
  cases h with
  | nested hts => exact .nested (hts.append hus)
  | @more l ts us' opened hts hl hus' =>
    rw [List.append_assoc, List.cons_append]
    exact .more hts hl (hus'.append hus)

/-- A closing parenthesis is the partner of the innermost one that is open. -/
theorem close (h : LeavesOpen ts (l :: opened)) (hr : r.is .delimiter ")") :
    LeavesOpen (ts ++ [r]) opened := by
  cases h with
  | more hts hl hus =>
    rw [List.append_assoc, List.cons_append]
    exact hts.append (.pair hl hus hr .nil)

theorem opening_eq (h : LeavesOpen ts opened) : opening ts = closing ts + opened.length := by
  induction h with
  | nested hts => exact hts.opening_eq
  | @more l ts us opened _ hl hus ih =>
    obtain ⟨hopening, hclosing⟩ := Token.counts_cons_open us hl
    have heq := hus.opening_eq
    rw [Token.opening_append, Token.closing_append, List.length_cons]
    omega

theorem opensFirst (h : LeavesOpen ts opened) : OpensFirst ts := by
  induction h with
  | nested hts => exact hts.opensFirst
  | more _ hl hus ih => exact ih.append (hus.opensFirst.open hl)

/-- Behind the innermost open parenthesis all others have partners, and it has none. -/
theorem lastAlone (h : LeavesOpen ts (l :: opened)) : ∃ i, ts[i]? = some l ∧ LastAlone ts i := by
  cases h with
  | @more _ ts us _ _ hl hus =>
    have hget : (ts ++ l :: us)[ts.length]? = some l := by
      rw [List.getElem?_append_right (Nat.le_refl _), Nat.sub_self]
      rfl
    refine ⟨ts.length, hget, ⟨⟨l, hget, hl⟩, ?_⟩, ?_⟩
    · rintro j ⟨before, l', between, r, behind, heq, hlen, -, -, hbetween, hr⟩
      obtain ⟨rfl, htail⟩ := List.append_inj heq hlen.symm
      obtain ⟨rfl, rfl⟩ := List.cons.inj htail
      -- The partner would be one closing parenthesis too many.
      have hfirst := hus.opensFirst (between ++ [r]).length
      obtain ⟨hopening, hclosing⟩ := Token.counts_concat_close between hr
      rw [show between ++ r :: behind = (between ++ [r]) ++ behind by simp, List.take_left,
        hopening, hclosing, hbetween.opening_eq] at hfirst
      exact Nat.not_succ_le_self _ hfirst
    · rintro j ⟨⟨l', hj, hl'⟩, halone⟩
      by_contra hlt
      obtain ⟨k, rfl⟩ := Nat.exists_eq_add_of_lt (Nat.lt_of_not_le hlt)
      rw [List.getElem?_append_right (by omega), show ts.length + k + 1 - ts.length = k + 1 by
        omega, List.getElem?_cons_succ] at hj
      obtain ⟨m, hm⟩ := hus.partner hj hl'
      exact halone _ ((hm.cons l).append_left ts)

end LeavesOpen

/-! ## What the check finds -/

namespace Balance

/-- The stack holds what the tokens before leave open, so that the check finds the top of what all
tokens leave open, or a closing parenthesis behind tokens that leave none. -/
theorem offenderFrom_spec (rest : List Token) (h : LeavesOpen ts opened) :
    (∃ left, LeavesOpen (ts ++ rest) left ∧ offenderFrom opened rest = left.head?) ∨
      ∃ before r behind, ts ++ rest = before ++ r :: behind ∧ Nested before ∧
        r.is .delimiter ")" ∧ offenderFrom opened rest = some r := by
  induction rest generalizing ts opened with
  | nil => exact .inl ⟨opened, by rwa [List.append_nil], rfl⟩
  | cons t rest ih =>
    rw [offenderFrom.eq_def, List.append_cons]
    simp only
    by_cases hl : t.is .delimiter "("
    · rw [if_pos hl]
      exact ih (.more h hl .nil)
    rw [if_neg hl]
    by_cases hr : t.is .delimiter ")"
    · rw [if_pos hr]
      cases opened with
      | nil =>
        cases h with
        | nested hts => exact .inr ⟨ts, t, rest, by simp, hts, hr, rfl⟩
      | cons l opened => exact ih (h.close hr)
    · rw [if_neg hr]
      exact ih (h.append (.other (by simpa using hl) (by simpa using hr) .nil))

/-- Behind nested tokens a closing parenthesis is the first one too many. -/
theorem closesTooMuch {before behind : List Token} (hbefore : Nested before)
    (hr : r.is .delimiter ")") : ClosesTooMuch (before ++ r :: behind) before.length := by
  constructor
  · obtain ⟨hopening, hclosing⟩ := Token.counts_concat_close before hr
    rw [List.append_cons, show before.length + 1 = (before ++ [r]).length by simp, List.take_left,
      hopening, hclosing, hbefore.opening_eq]
    exact Nat.lt_succ_self _
  · intro k hk
    rw [List.take_append_of_le_length hk]
    exact hbefore.opensFirst k

/-- What the check says of a token list. The parentheses are balanced; or the last token of the
shortest prefix with more closing than opening ones is to blame; or there is no such prefix, and the
last opening one without a partner is. -/
inductive Blames (ts : List Token) : Option Token → Except ParseError Unit → Prop
  | balanced (hfirst : OpensFirst ts) (heq : opening ts = closing ts) : Blames ts none (.ok ())
  | stray {i : Nat} {r : Token} (hi : ts[i]? = some r) (hr : ClosesTooMuch ts i) :
      Blames ts (some r) (.error (.unexpectedToken r.text r.pos none))
  | unclosed {i : Nat} {l : Token} (hfirst : OpensFirst ts) (hne : opening ts ≠ closing ts)
      (hi : ts[i]? = some l) (hl : LastAlone ts i) :
      Blames ts (some l) (.error (.unexpectedEnd (.closing l.pos) (endPosition? ts)))

/-- Of the three outcomes one holds, and of one parenthesis. -/
theorem Blames.unique {o o' : Option Token} {c c' : Except ParseError Unit} (h : Blames ts o c)
    (h' : Blames ts o' c') : o = o' ∧ c = c' := by
  cases h with
  | balanced hfirst heq =>
    cases h' with
    | balanced => exact ⟨rfl, rfl⟩
    | stray _ hr => exact absurd hfirst hr.not_opensFirst
    | unclosed _ hne => exact absurd heq hne
  | stray hi hr =>
    cases h' with
    | balanced hfirst => exact absurd hfirst hr.not_opensFirst
    | stray hi' hr' =>
      obtain rfl := hr.unique hr'
      cases hi.symm.trans hi'
      exact ⟨rfl, rfl⟩
    | unclosed hfirst => exact absurd hfirst hr.not_opensFirst
  | unclosed hfirst hne hi hl =>
    cases h' with
    | balanced _ heq => exact absurd heq hne
    | stray _ hr => exact absurd hfirst hr.not_opensFirst
    | unclosed _ _ hi' hl' =>
      obtain rfl := Nat.le_antisymm (hl'.2 _ hl.1) (hl.2 _ hl'.1)
      cases hi.symm.trans hi'
      exact ⟨rfl, rfl⟩

theorem blames_check (ts : List Token) : Blames ts (offender? ts) (check ts) := by
  unfold check
  rcases offenderFrom_spec ts (.nested .nil) with
    ⟨left, hleft, hoffender⟩ | ⟨before, r, behind, rfl, hbefore, hr, hoffender⟩
  · rw [List.nil_append] at hleft
    cases left with
    | nil =>
      rw [show offender? ts = none from hoffender]
      exact .balanced hleft.opensFirst hleft.opening_eq
    | cons l left =>
      obtain ⟨i, hi, hl⟩ := hleft.lastAlone
      have hne : opening ts ≠ closing ts := by
        have heq := hleft.opening_eq
        rw [List.length_cons] at heq
        omega
      obtain ⟨l', hi', hopen⟩ := hl.1.1
      cases hi.symm.trans hi'
      rw [show offender? ts = some l from hoffender]
      simp only [(Token.is_iff.mp hopen).2, ↓reduceIte]
      exact .unclosed hleft.opensFirst hne hi hl
  · rw [show offender? (before ++ r :: behind) = some r from hoffender]
    have hne : r.text ≠ "(" := by rw [(Token.is_iff.mp hr).2]; decide
    simp only [hne, ↓reduceIte]
    refine .stray ?_ (closesTooMuch hbefore hr)
    rw [List.getElem?_append_right (Nat.le_refl _), Nat.sub_self, List.getElem?_cons_zero]

/-- The check tells balanced parentheses by their counts, and what it blames, and with which error,
is determined by counting and matching. -/
theorem check_blames (ts : List Token) :
    (offender? ts = none ↔ OpensFirst ts ∧ opening ts = closing ts) ∧
    (isBalanced ts ↔ OpensFirst ts ∧ opening ts = closing ts) ∧
    ∀ o c, Blames ts o c ↔ o = offender? ts ∧ c = check ts := by
  have hblames := blames_check ts
  have hnone : offender? ts = none ↔ OpensFirst ts ∧ opening ts = closing ts := by
    constructor
    · intro h
      rw [h] at hblames
      generalize check ts = c at hblames
      cases hblames with
      | balanced hfirst heq => exact ⟨hfirst, heq⟩
    · rintro ⟨hfirst, heq⟩
      exact (hblames.unique (.balanced hfirst heq)).1
  refine ⟨hnone, ?_, fun o c => ⟨fun h => h.unique hblames, ?_⟩⟩
  · rw [isBalanced, Option.isNone_iff_eq_none, hnone]
  · rintro ⟨rfl, rfl⟩
    exact hblames

/-- Of two parentheses that stay open the inner one is blamed. -/
example :
    let ts : List Token := [⟨.delimiter, "(", 0⟩, ⟨.number, "1", 1⟩, ⟨.operator, "+", 3⟩,
      ⟨.delimiter, "(", 5⟩, ⟨.number, "2", 6⟩]
    OpensFirst ts ∧ opening ts ≠ closing ts ∧ offender? ts = some ⟨.delimiter, "(", 5⟩ := by
  decide

end Balance

end Abacus
