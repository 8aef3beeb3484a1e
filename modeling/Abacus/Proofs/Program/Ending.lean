import Abacus.Proofs.Program.Descent
import Abacus.Proofs.Program.Whole

/-!
# Reading ends

The loops of recursive descent go on as long as the token at the cursor says so, and the cursor
stays where it is at the last token. That they end is not said by any type, and the tokens may be
any at all: none, some without an end of the text, or with one in the middle.

* `statements`, `program`, `single`: what is read at the top, with the loop over the statements.
* `descent_ends`: reading ends, with the results of `Parser.program` and `Parser.single`. As many
  nested calls are enough as a linear function of the number of tokens says. Every call moves the
  cursor forward only and over no end of the text, and each that reads a part of a program moves it.
-/

namespace Abacus

open Tape
open Grammar (rank rank_le_or)

namespace Parser

theorem length_lt_of_itemsBehind {β : Type}
    {more : List Token → Except ParseError (List β × List Token)} {ts rest : List Token}
    {items : List β}
    (hmore : ∀ us items rest, more us = .ok (items, rest) → rest.length < us.length)
    (h : itemsBehind more ts = .ok (items, rest)) : rest.length < ts.length := by
  cases ts with
  | nil => cases h
  | cons t us =>
    rw [itemsBehind] at h
    split at h
    · exact Nat.lt_succ_of_lt (hmore us items rest h)
    · obtain ⟨_, hclose, h⟩ := ok_of_bind h
      cases h
      exact length_lt_of_outcome hclose

end Parser

namespace Call

variable {α : Type} {ts rest : List Token} {a : α}

/-- Whether a call reads a part of a program. The others go on behind a part, if anything follows
that can, or look ahead, or skip separators. -/
def reads : {α : Type} → Call α → Bool
  | _, .more .. | _, .lookahead | _, .scan _ | _, .skipSeparators => false
  | _, _ => true

/-- A linear function bounds the nested calls that are enough. -/
theorem cost_le (c : Call α) (n : Nat) : c.cost n ≤ 17 * n + 17 := by
  cases c
  case level l | chain l _ | more l _ _ =>
    have := rank_le_or l
    simp only [cost, rank] at *
    omega
  all_goals simp only [cost]; omega

theorem length_lt_of_result {c : Call α} (hc : c.reads) (h : c.result ts = .ok (a, rest)) :
    rest.length < ts.length := by
  cases c with
  -- A call that reads has an expected token or an operand of its own; the calls that may stay where
  -- they are do not read.
  | expr | unary | primary | params | stmt => exact Parser.length_lt_of_outcome h
  | level l | chain l hl => exact Parser.length_lt_of_levelOutcome h
  | more l hl left => cases hc
  | lookahead => cases hc
  | scan i => cases hc
  | skipSeparators => cases hc
  | conditional =>
    obtain ⟨_, h₁, h⟩ := Parser.ok_of_bind h
    obtain ⟨_, h₂, h⟩ := Parser.ok_of_bind h
    obtain ⟨_, h₃, h⟩ := Parser.ok_of_bind h
    obtain ⟨_, h₄, h⟩ := Parser.ok_of_bind h
    obtain ⟨_, h₅, h⟩ := Parser.ok_of_bind h
    obtain ⟨_, h₆, h⟩ := Parser.ok_of_bind h
    cases h
    have := Parser.length_lt_of_outcome h₁
    have := Parser.length_lt_of_outcome h₂
    have := Parser.length_lt_of_outcome h₃
    have := Parser.length_lt_of_outcome h₄
    have := Parser.length_lt_of_outcome h₅
    have := Parser.length_lt_of_outcome h₆
    omega
  | call =>
    obtain ⟨_, h₁, h⟩ := Parser.ok_of_bind h
    obtain ⟨_, h₂, h⟩ := Parser.ok_of_bind h
    obtain ⟨_, h₃, h⟩ := Parser.ok_of_bind h
    cases h
    have := Parser.length_lt_of_takeOutcome h₁
    have := Parser.length_lt_of_outcome h₂
    have := Parser.length_lt_of_outcome h₃
    omega
  | argsBehind | paramsBehind =>
    exact Parser.length_lt_of_itemsBehind (fun _ _ _ => Parser.length_lt_of_outcome) h
  | definition =>
    obtain ⟨_, h₁, h⟩ := Parser.ok_of_bind h
    have := Parser.length_lt_of_outcome h₁
    have := Parser.length_lt_of_outcome h
    omega

end Call

namespace Reading

variable {tape : Tape} {α β : Type}

/-- From `p` on the reading ends with the result, and the cursor passes no end of the text. -/
def EndsWith (m : Reading tape α) (p : tape.Place) (r : Except ParseError α) : Prop :=
  ∃ q, m.startAt p = some (r, q) ∧ Passes p q

variable {m : Reading tape α} {k : α → Reading tape β} {p q : tape.Place}

theorem EndsWith.after {a : α} {r : Except ParseError β} (hm : m.startAt p = some (.ok a, q))
    (hq : Passes p q) (hk : (k a).EndsWith q r) : (m >>= k).EndsWith p r := by
  obtain ⟨s, hs, hqs⟩ := hk
  exact ⟨s, (startAt_bind_ok hm).trans hs, hq.trans hqs⟩

theorem ComesTo.endsWith {o : Except ParseError (α × List Token)} (h : m.ComesTo p o) :
    m.EndsWith p (o.map Prod.fst) := by
  obtain ⟨r, q, hr, hq, rfl⟩ := h.ends
  cases r <;> exact ⟨q, hr, hq⟩

/-- Behind a reading that has an outcome. -/
theorem ComesTo.bind_endsWith {o : Except ParseError (α × List Token)}
    {f : α × List Token → Except ParseError β} (hm : m.ComesTo p o)
    (hk : ∀ a q, o = .ok (a, ahead q) → (k a).EndsWith q (f (a, ahead q))) :
    (m >>= k).EndsWith p (o >>= f) := by
  obtain ⟨r, q, hr, hq, rfl⟩ := hm.ends
  cases r with
  | ok a => exact .after hr hq (hk a q rfl)
  | error e => exact ⟨q, startAt_bind_error hr, hq⟩

theorem EndsWith.current {c : Token → Reading tape β} {r : Except ParseError β}
    (h : (c (tape.current p)).EndsWith p r) : (Reading.current >>= c).EndsWith p r :=
  .after rfl (.refl p) h

theorem EndsWith.pure (a : α) (p : tape.Place) :
    (Pure.pure a : Reading tape α).EndsWith p (.ok a) :=
  ⟨p, rfl, .refl p⟩

theorem EndsWith.map {r : Except ParseError α} (h : m.EndsWith p r) (f : α → β) :
    (m >>= fun a => Pure.pure (f a)).EndsWith p (r.map f) := by
  obtain ⟨q, hr, hq⟩ := h
  cases r with
  | ok a => exact ⟨q, startAt_bind_ok hr, hq⟩
  | error e => exact ⟨q, startAt_bind_error hr, hq⟩

theorem EndsWith.fail (expected : Expectation) (p : tape.Place) :
    (Reading.fail expected : Reading tape α).EndsWith p
      (.error (Parser.unexpected expected (ahead p))) :=
  (ComesTo.fail expected p).endsWith

end Reading

namespace Descent

open Reading

variable {tape : Tape}

/-- Reads statements up to the end of the text, with at most `limit` rounds and nested calls. -/
def statements : Nat → Reading tape (List Stmt)
  | 0 => endless
  | limit + 1 => do
    if (← current).isEnd then return []
    else
      let s ← run limit .stmt
      let t ← current
      if t.isEnd then return [s]
      else if t.isSeparator then
        run limit .skipSeparators
        return s :: (← statements limit)
      else fail .separator

/-- Reads a program. -/
def program (limit : Nat) : Reading tape Program := do
  run limit .skipSeparators
  return ⟨← statements limit⟩

/-- Reads a single expression. -/
def single (limit : Nat) : Reading tape Expr := do
  run limit .skipSeparators
  let x ← run limit .expr
  run limit .skipSeparators
  if (← current).isEnd then return x else fail .endOfExpression

end Descent

namespace Parser

/-- The statements, if nothing stopped the reading of them. -/
def Statements.result (ss : Statements) : Except ParseError (List Stmt) :=
  match ss.failure with
  | none => .ok ss.read
  | some e => .error e

theorem Statements.result_cons (s : Stmt) (ss : Statements) :
    Statements.result ⟨s :: ss.read, ss.failure⟩ = ss.result.map (s :: ·) := by
  obtain ⟨read, failure⟩ := ss
  cases failure <;> rfl

theorem program_eq (ts : List Token) :
    program ts = (statementsFrom (skipSeparators (closed ts))).result.map Program.mk := by
  rw [program, statements]
  obtain ⟨read, failure⟩ := statementsFrom (skipSeparators (closed ts))
  cases failure <;> rfl

theorem length_closed_le (ts : List Token) : (closed ts).length ≤ ts.length + 1 := by
  rw [closed]
  split
  · simp
  · split <;> simp

theorem skipSeparators_cons {t : Token} {us : List Token} (ht : t.isSeparator) :
    skipSeparators (t :: us) = skipSeparators us :=
  List.dropWhile_cons_of_pos ht

end Parser

namespace Descent

open Reading

variable {tape : Tape} {p : tape.Place} {limit : Nat}

/-- Separators are skipped, and nothing else. -/
theorem skip_startAt (limit : Nat) (p : tape.Place) (h : (ahead p).length ≤ limit) :
    ∃ q, (run limit .skipSeparators).startAt p = some (.ok (), q) ∧ Passes p q ∧
      ahead q = Parser.skipSeparators (ahead p) := by
  obtain ⟨r, q, hrun, hq, hr⟩ := (run_carries tape limit _ .skipSeparators p h).ends
  cases r with
  | error e => cases hr
  | ok _ => exact ⟨q, hrun, hq, (Prod.mk.inj (Except.ok.inj hr)).2.symm⟩

/-- The loop over the statements ends, by induction on its rounds: each leaves fewer tokens. -/
theorem statements_endsWith (h : 17 * (ahead p).length + 18 ≤ limit) :
    (statements limit).EndsWith p (Parser.statementsFrom (ahead p)).result := by
  induction limit generalizing p with
  | zero => omega
  | succ limit ih =>
    -- The nesting left is measured by the tokens left, and each statement spends at least one of
    -- them.
    have hstmt := run_carries tape limit _ .stmt p (by simp only [Call.cost]; omega)
    obtain ⟨r, q, hrun, hq, hr⟩ := hstmt.ends
    rw [Call.result, ahead_eq] at hr
    rw [statements, ahead_eq]
    refine .current ?_
    split
    · rename_i hend
      rw [Parser.statementsFrom_end hend]
      exact .pure _ _
    rename_i hend
    cases r with
    | error e =>
      rw [Parser.statementsFrom_error (Bool.eq_false_iff.mpr hend) (Parser.outcome_error_iff.mp hr)]
      exact ⟨q, startAt_bind_error hrun, hq⟩
    | ok s =>
      rw [Parser.statementsFrom_cons (Bool.eq_false_iff.mpr hend) (Parser.outcome_ok_iff.mp hr)]
      have hlt := Parser.length_lt_of_outcome hr
      rw [← ahead_eq] at hlt
      refine .after hrun hq (.current ?_)
      rw [ahead_eq q, Parser.statementsAfter]
      split
      · exact .pure _ _
      split
      · rename_i hsep
        -- Separators are skipped without an error, and only tokens behind them are left.
        obtain ⟨q', hskip, hq', hahead⟩ := skip_startAt limit q (by omega)
        have hle := Parser.length_skipSeparators_le (ahead q)
        rw [← hahead] at hle
        rw [ahead_eq q, Parser.skipSeparators_cons hsep] at hahead
        refine .after hskip hq' ?_
        rw [← hahead, Parser.Statements.result_cons]
        exact (ih (p := q') (by omega)).map _
      · rw [← ahead_eq]
        exact .fail _ _

theorem program_endsWith (h : 17 * (ahead p).length + 18 ≤ limit) :
    (program limit).EndsWith p
      ((Parser.statementsFrom (Parser.skipSeparators (ahead p))).result.map Program.mk) := by
  obtain ⟨q, hskip, hq, hahead⟩ := skip_startAt limit p (by omega)
  have hle := Parser.length_skipSeparators_le (ahead p)
  rw [← hahead] at hle ⊢
  exact .after hskip hq ((statements_endsWith (by omega)).map _)

theorem single_endsWith (h : 17 * (ahead p).length + 15 ≤ limit) :
    (single limit).EndsWith p (do
      let (x, rest) ← Parser.outcome (Parser.expr (Parser.skipSeparators (ahead p)))
      match Parser.skipSeparators rest with
      | [] => .ok x
      | t :: us =>
        if t.isEnd then .ok x else .error (Parser.unexpected .endOfExpression (t :: us))) := by
  obtain ⟨q, hskip, hq, hahead⟩ := skip_startAt limit p (by omega)
  have hle := Parser.length_skipSeparators_le (ahead p)
  rw [← hahead] at hle ⊢
  refine .after hskip hq ?_
  have hexpr := run_carries tape limit _ .expr q (by simp only [Call.cost]; omega)
  refine hexpr.bind_endsWith fun x r hx => ?_
  have hlt := Parser.length_lt_of_outcome hx
  obtain ⟨r', hskip', hr', hahead'⟩ := skip_startAt limit r (by omega)
  refine .after hskip' hr' (.current ?_)
  simp only
  rw [← hahead', ahead_eq]
  simp only
  split
  · exact .pure _ _
  · rw [← ahead_eq]
    exact .fail _ _

/-- Reading ends on every token list, with an error or the result that `Parser` gives, and as many
nested calls are enough for it as a linear function of the number of tokens says. So does each call,
from each place on. The cursor is only moved forward, and no call moves it over an end of the text;
a call that reads a part of a program and does not fail has moved it. -/
theorem descent_ends (ts : List Token) :
    let tape := Tape.ofTokens ts
    (∀ limit, 17 * ts.length + 35 ≤ limit →
      (program limit).EndsWith tape.start (Parser.program ts) ∧
        (single limit).EndsWith tape.start (Parser.single ts)) ∧
      (∀ p : tape.Place, p ≤ next p) ∧
      ∀ (α : Type) (c : Call α) (p : tape.Place) (limit : Nat),
        17 * (ahead p).length + 17 ≤ limit → ∃ r q,
          (run limit c).startAt p = some (r, q) ∧ Passes p q ∧
            (c.reads → ∀ a, r = .ok a → p < q) := by
  intro tape
  have hlength : tape.tokens.length ≤ ts.length + 1 := Parser.length_closed_le ts
  refine ⟨?_, le_next, ?_⟩
  · intro limit hlimit
    rw [Parser.program_eq, Parser.single_eq_outcome]
    have hstart : 17 * (ahead tape.start).length + 18 ≤ limit := by rw [ahead_start]; omega
    exact ⟨program_endsWith hstart, single_endsWith (Nat.le_of_add_right_le (k := 3) hstart)⟩
  · intro α c p limit hlimit
    have hcost := Nat.le_trans (c.cost_le (ahead p).length) hlimit
    obtain ⟨r, q, hrun, hq, hr⟩ := (run_carries tape limit α c p hcost).ends
    refine ⟨r, q, hrun, hq, fun hc a ha => ?_⟩
    subst ha
    have hlt := Call.length_lt_of_result hc hr
    rw [length_ahead, length_ahead] at hlt
    exact Fin.lt_def.mpr (by omega)

/-- A name, with the end of the text and two tokens behind it that no scanner makes. -/
theorem descent_ends_end_inside :
    let ts : List Token :=
      [⟨.identifier, "a", 0⟩, Token.endAt 1, ⟨.blank, " ", 1⟩, ⟨.other, "?", 2⟩]
    let tape := Tape.ofTokens ts
    17 * ts.length + 35 ≤ 103 ∧
      (program 103).EndsWith tape.start (.ok ⟨[.expr (.var "a")]⟩) ∧
      (single 103).EndsWith tape.start (.ok (.var "a")) ∧
      17 * (ahead tape.start).length + 17 ≤ 102 ∧ Call.stmt.reads ∧ ∃ r q,
        (run 102 .stmt).startAt tape.start = some (r, q) ∧ Passes tape.start q ∧
          ∀ a, r = .ok a → tape.start < q := by
  intro ts tape
  obtain ⟨hwhole, -, hcalls⟩ := descent_ends ts
  have hprogram : Parser.program ts = .ok ⟨[.expr (.var "a")]⟩ := by cbv
  have hsingle : Parser.single ts = .ok (.var "a") := by cbv
  have hlimit : 17 * (ahead tape.start).length + 17 ≤ 102 := by decide
  obtain ⟨hp, hs⟩ := hwhole 103 (by decide)
  obtain ⟨r, q, hrun, hq, hmoved⟩ := hcalls _ .stmt tape.start 102 hlimit
  exact ⟨by decide, hprogram ▸ hp, hsingle ▸ hs, hlimit, rfl, r, q, hrun, hq, hmoved rfl⟩

end Descent

end Abacus
