import Abacus.Proofs.Program.Descent
import Abacus.Proofs.Program.Heads

/-!
# Looking ahead for parameters

At an opening parenthesis the parser looks ahead for the parameters of a lambda, and if it finds
them it reads the same tokens again as parameters and an arrow. The one does not use the other:
looking ahead has a loop of its own, which counts places behind the cursor and may count beyond the
last token.

* `lambdaHead`: reads parameters and an arrow.
* `Tape.ParamsAt p names`: where looking ahead from `p` finds names, commas, the parenthesis and the
  arrow.
* `lookahead_agrees`: looking ahead ends, does not move the cursor, and says yes exactly where
  `lambdaHead` succeeds; the names that are then read are those at the places looked at.
-/

namespace Abacus

/-! ## Where parameters stand -/

section Spelled

variable {ts : List Token} {names : List String}

theorem SpellsMoreParams.length_eq (h : SpellsMoreParams ts names) :
    ts.length = 2 * names.length := by
  induction h with
  | last _ _ => rfl
  | more _ _ _ ih => simp only [List.length_cons, ih]; omega

/-- The names are at the even indices. -/
theorem SpellsMoreParams.name_at (h : SpellsMoreParams ts names) (j : Nat) (hj : j < names.length) :
    ∃ t, ts[2 * j]? = some t ∧ t.kind = .identifier ∧ t.text = names[j] := by
  induction h generalizing j with
  | @last t r ht hr =>
    obtain rfl : j = 0 := Nat.lt_one_iff.mp hj
    exact ⟨t, rfl, ht, rfl⟩
  | @more t c ts names ht hc _ ih =>
    cases j with
    | zero => exact ⟨t, rfl, ht, rfl⟩
    | succ j => exact ih j (Nat.lt_of_succ_lt_succ hj)

theorem SpellsMoreParams.comma_at (h : SpellsMoreParams ts names) (j : Nat)
    (hj : j + 1 < names.length) : ∃ c, ts[2 * j + 1]? = some c ∧ c.is .delimiter "," := by
  induction h generalizing j with
  | last _ _ => exact absurd hj (by simp)
  | @more t c ts names ht hc _ ih =>
    cases j with
    | zero => exact ⟨c, rfl, hc⟩
    | succ j => exact ih j (Nat.lt_of_succ_lt_succ hj)

theorem SpellsMoreParams.close_at (h : SpellsMoreParams ts names) :
    ∃ r, ts.getLast? = some r ∧ r.is .delimiter ")" := by
  induction h with
  | @last t r _ hr => exact ⟨r, rfl, hr⟩
  | @more t c ts names _ _ hts ih =>
    obtain ⟨r, hr, hclose⟩ := ih
    exact ⟨r, by rw [List.getLast?_cons_cons, List.getLast?_cons, hr]; rfl, hclose⟩

end Spelled

open Tape

/-- Names with commas between them, a closing parenthesis and an arrow stand behind the token at
`p`. The names are at every other place from the next one on. -/
structure Tape.ParamsAt {tape : Tape} (p : tape.Place) (names : List String) : Prop where
  name : ∀ (j : Nat) (hj : j < names.length),
    (peek p (2 * j + 1)).kind = .identifier ∧ (peek p (2 * j + 1)).text = names[j]
  comma : ∀ j, j + 1 < names.length → (peek p (2 * j + 2)).is .delimiter ","
  close : (peek p (max 1 (2 * names.length))).is .delimiter ")"
  arrow : (peek p (max 1 (2 * names.length) + 1)).is .operator "=>"

namespace Parser

/-- What parameters and an arrow behind them come to. -/
def lambdaHeadOutcome (ts : List Token) : Except ParseError (List String × List Token) := do
  let (names, us) ← outcome (params ts)
  let (_, rest) ← outcome (expect .operator "=>" us)
  .ok (names, rest)

theorem lambdaHeadOutcome_of_spells {ps rest : List Token} {names : List String} {a : Token}
    (hps : SpellsParams ps names) (ha : a.is .operator "=>") :
    lambdaHeadOutcome (ps ++ a :: rest) = .ok (names, rest) := by
  rw [lambdaHeadOutcome, outcome_params_of_spells hps]
  simp only [bind, Except.bind, outcome_expect, if_pos ha]

theorem lambdaHeadOutcome_sound {ts rest : List Token} {names : List String}
    (h : lambdaHeadOutcome ts = .ok (names, rest)) :
    ∃ ps a, ts = ps ++ a :: rest ∧ SpellsParams ps names ∧ a.is .operator "=>" := by
  obtain ⟨⟨names', us⟩, hparams, h⟩ := ok_of_bind h
  obtain ⟨⟨a, rest'⟩, harrow, h⟩ := ok_of_bind h
  cases h
  obtain ⟨ps, rfl, hps⟩ := params_sound (outcome_ok_iff.mp hparams)
  obtain ⟨rfl, ha⟩ := expect_ok (outcome_ok_iff.mp harrow)
  exact ⟨ps, a, rfl, hps, ha⟩

/-- Looking ahead finds parameters and an arrow where they are read. -/
theorem paramsAhead_iff_lambdaHead {ts : List Token} :
    paramsAhead ts = true ↔ ∃ names rest, lambdaHeadOutcome ts = .ok (names, rest) := by
  rw [paramsAhead_iff]
  constructor
  · rintro ⟨ps, names, a, rest, rfl, hps, ha⟩
    exact ⟨names, rest, lambdaHeadOutcome_of_spells hps ha⟩
  · rintro ⟨names, rest, h⟩
    obtain ⟨ps, a, hts, hps, ha⟩ := lambdaHeadOutcome_sound h
    exact ⟨ps, names, a, rest, hts, hps, ha⟩

end Parser

namespace Descent

variable {tape : Tape} {p : tape.Place}

/-- Reads parameters behind an opening parenthesis and the arrow behind them. -/
def lambdaHead (limit : Nat) : Reading tape (List String) := do
  let names ← run limit .params
  let _ ← Reading.expect .operator "=>"
  return names

theorem lambdaHead_comesTo {limit : Nat} (h : (ahead p).length < limit) :
    (lambdaHead limit).ComesTo p (Parser.lambdaHeadOutcome (ahead p)) := by
  refine (run_carries tape limit _ .params p h).bind fun names q _ => ?_
  exact (Reading.ComesTo.expect (by decide) "=>" q).bind fun _ r _ => .pure names r

theorem peek_of_behind {k : Nat} {t : Token} (h : (behind p)[k]? = some t) :
    peek p (k + 1) = t := by
  rw [behind, List.getElem?_drop] at h
  rw [peek, show p.val + (k + 1) = p.val + 1 + k by omega, h]
  rfl

/-- What is spelled as parameters with an arrow behind them stands at the places looked at. -/
theorem paramsAt_of_spells {ps rest : List Token} {names : List String} {a : Token}
    (hbehind : behind p = ps ++ a :: rest) (hps : SpellsParams ps names)
    (ha : a.is .operator "=>") : ParamsAt p names := by
  -- The cursor stands on the bracket, one place before the list.
  have harrow : peek p (ps.length + 1) = a :=
    peek_of_behind (by rw [hbehind, List.getElem?_append_right (Nat.le_refl _), Nat.sub_self]; rfl)
  have hpeek : ∀ {k : Nat} {t : Token}, ps[k]? = some t → peek p (k + 1) = t := by
    intro k t h
    obtain ⟨hk, -⟩ := List.getElem?_eq_some_iff.mp h
    exact peek_of_behind (by rw [hbehind, List.getElem?_append_left hk, h])
  cases hps with
  | @none r hr =>
    have hclose : peek p 1 = r := hpeek rfl
    have harrow : peek p 2 = a := harrow
    exact {
      name := fun j hj => absurd hj (Nat.not_lt_zero j)
      comma := fun j hj => absurd hj (Nat.not_lt_zero _)
      close := hclose ▸ hr
      arrow := harrow ▸ ha }
  | some hps =>
    have hlen := hps.length_eq
    obtain ⟨r, hlast, hr⟩ := hps.close_at
    -- There is a name, so the list has a first token and its length is no truncated difference.
    have hpos : 1 ≤ 2 * names.length := by
      rw [← hlen, Nat.one_le_iff_ne_zero, Ne, List.length_eq_zero_iff]
      rintro rfl
      cases hlast
    exact {
      name := by
        intro j hj
        obtain ⟨t, ht, hkind, htext⟩ := hps.name_at j hj
        rw [hpeek ht]
        exact ⟨hkind, htext⟩
      comma := by
        intro j hj
        obtain ⟨c, hc, hcomma⟩ := hps.comma_at j hj
        rw [hpeek hc]
        exact hcomma
      close := by
        rw [List.getLast?_eq_getElem?] at hlast
        have hclose := hpeek hlast
        rw [Nat.max_eq_right hpos]
        rw [hlen, Nat.sub_add_cancel hpos] at hclose
        rw [hclose]
        exact hr
      arrow := by
        rw [Nat.max_eq_right hpos, ← hlen, harrow]
        exact ha }

/-- Looking ahead agrees with reading. At every opening parenthesis, whatever tokens follow, looking
ahead ends and does not move the cursor. It says yes if and only if parameters and an arrow can be
read from behind the parenthesis, and then the names that are read are those at the places it looked
at. Where it says no, reading them fails with an error. -/
theorem lookahead_agrees (tape : Tape) (p : tape.Place) (limit : Nat)
    (hp : (current p).is .delimiter "(") (hlimit : (ahead p).length < limit) :
    let found := Parser.paramsAhead (behind p)
    (run limit .lookahead).startAt p = some (.ok found, p) ∧
      (found = true ↔ ∃ names q, (lambdaHead limit).startAt (next p) = some (.ok names, q)) ∧
      (found = false ↔ ∃ err q, (lambdaHead limit).startAt (next p) = some (.error err, q)) ∧
      ∀ names q, (lambdaHead limit).startAt (next p) = some (.ok names, q) →
        ParamsAt p names := by
  intro found
  have ht := Token.isEnd_of_is hp (by decide)
  have hlook := run_carries tape limit _ .lookahead p hlimit
  rw [Call.result, ahead_eq, List.tail_cons, ← ahead_eq] at hlook
  have hlimit' : (ahead (next p)).length < limit := by
    rw [length_behind] at hlimit
    rw [ahead_next ht]
    omega
  have hread := lambdaHead_comesTo hlimit'
  rw [ahead_next ht] at hread
  refine ⟨hlook.startAt_stay, ?_⟩
  -- The run of the parameter reader ends one way or the other; the lookahead is compared with each
  -- outcome through the same parameters and arrow.
  obtain ⟨r, q, hrun, -, hr⟩ := hread.ends
  rw [hrun]
  cases r with
  | error err =>
    have hfound : found ≠ true := fun h => by
      obtain ⟨names, rest, h⟩ := Parser.paramsAhead_iff_lambdaHead.mp h
      rw [hr] at h
      cases h
    refine ⟨iff_of_false hfound ?_, iff_of_true (Bool.eq_false_iff.mpr hfound) ⟨err, q, rfl⟩, ?_⟩
    · rintro ⟨_, _, h⟩
      cases h
    · intro _ _ h
      cases h
  | ok names =>
    have hfound : found = true := Parser.paramsAhead_iff_lambdaHead.mpr ⟨names, ahead q, hr⟩
    refine ⟨iff_of_true hfound ⟨names, q, rfl⟩,
      iff_of_false (fun h => Bool.false_ne_true (h.symm.trans hfound)) ?_, ?_⟩
    · rintro ⟨_, _, h⟩
      cases h
    · intro _ _ h
      cases h
      obtain ⟨ps, a, hbehind, hps, ha⟩ := Parser.lambdaHeadOutcome_sound hr
      exact paramsAt_of_spells hbehind hps ha

/-- Two names, a parenthesis and an arrow: `(a, b) => a`. -/
theorem lookahead_agrees_two_names :
    let tape := Tape.ofTokens [⟨.delimiter, "(", 0⟩, ⟨.identifier, "a", 1⟩, ⟨.delimiter, ",", 2⟩,
      ⟨.identifier, "b", 4⟩, ⟨.delimiter, ")", 5⟩, ⟨.operator, "=>", 7⟩, ⟨.identifier, "a", 10⟩]
    (current tape.start).is .delimiter "(" ∧ (ahead tape.start).length < 9 ∧
      (run 9 .lookahead).startAt tape.start = some (.ok true, tape.start) ∧
      ∃ names q, (lambdaHead 9).startAt (next tape.start) = some (.ok names, q) ∧
        ParamsAt tape.start names := by
  intro tape
  have hp : (current tape.start).is .delimiter "(" := by decide
  have hlimit : (ahead tape.start).length < 9 := by decide
  have hfound : Parser.paramsAhead (behind tape.start) = true := by decide
  obtain ⟨hlook, hread, -, hnames⟩ := lookahead_agrees tape tape.start 9 hp hlimit
  rw [hfound] at hlook
  obtain ⟨names, q, hrun⟩ := hread.mp hfound
  exact ⟨hp, hlimit, hlook, names, q, hrun, hnames names q hrun⟩

end Descent

end Abacus
