import Abacus.Proofs.Program.Whole
import Mathlib.Data.List.Basic

/-!
# Checking the parentheses first

Token lists are checked for balanced parentheses before they are read, so that the error can tell
which parenthesis has no partner. That the check changes nothing else (`Balance.check_refuses`) is
up to the parser: it takes parentheses in parameters, calls, groups and definitions, and always in
pairs. What it reads is a phrase (`Parser.program_iff`, `Parser.single_iff`), and phrases are
balanced (`Spells.balanced`).

The parser stops at the first end of the text, the check does not. So the end of the text must come
last, or be missing as in a list that was not scanned; the parser then adds it.
-/

namespace Abacus

/-- The end of the text comes last, or not at all. -/
def EndsLast (ts : List Token) : Prop := NoEnd ts.dropLast

theorem Balanced.offender?_eq_none {ts : List Token} (h : Balanced ts) :
    Balance.offender? ts = none := by
  have hnone := h [] []
  rwa [List.append_nil] at hnone

namespace Parser

variable {ts : List Token} {p : Program} {x : Expr}

/-- A list in which the end of the text comes last if at all is read with one end, and that comes
last. -/
theorem EndsLast.closed (h : EndsLast ts) : ∃ body e, NoEnd body ∧ e.isEnd ∧
    Parser.closed ts = body ++ [e] ∧ (ts = body ∨ ts = body ++ [e]) := by
  rcases List.eq_nil_or_concat ts with rfl | ⟨body, t, rfl⟩
  · exact ⟨[], Token.endAt 0, noEnd_nil, rfl, rfl, .inl rfl⟩
  · rw [List.concat_eq_append] at h ⊢
    unfold EndsLast at h
    rw [List.dropLast_concat] at h
    by_cases ht : t.isEnd
    · exact ⟨body, t, h, ht, closed_of_end ht, .inr rfl⟩
    · refine ⟨body ++ [t], Token.endAt (t.pos + t.text.length), ?_, rfl, ?_, .inl rfl⟩
      · exact noEnd_append.mpr ⟨h, noEnd_cons.mpr ⟨by simpa using ht, noEnd_nil⟩⟩
      · simp [Parser.closed, ht]

/-- An end of the text that is added is not read differently from one that is there. -/
theorem program_closed {body : List Token} {e : Token} (he : e.isEnd)
    (h : closed ts = body ++ [e]) : program ts = program (body ++ [e]) := by
  rw [program, program, statements, statements, closed_of_end he, h]

theorem single_closed {body : List Token} {e : Token} (he : e.isEnd)
    (h : closed ts = body ++ [e]) : single ts = .ok x ↔ single (body ++ [e]) = .ok x := by
  rw [single_ok_iff, single_ok_iff, closed_of_end he, h]

theorem offender?_of_balanced {body : List Token} {e : Token} (h : Balanced body) (he : e.isEnd)
    (hts : ts = body ∨ ts = body ++ [e]) : Balance.offender? ts = none := by
  rcases hts with rfl | rfl
  · exact h.offender?_eq_none
  · have hend : Balanced [e] := Balanced.nil.cons_kind (by simp [Token.kind_of_isEnd he])
    exact (h.append hend).offender?_eq_none

/-- The parentheses of a list that is read as a program are balanced. -/
theorem offender?_of_program (hts : EndsLast ts) (h : program ts = .ok p) :
    Balance.offender? ts = none := by
  obtain ⟨body, e, hbody, he, hclosed, hlist⟩ := EndsLast.closed hts
  rw [program_closed he hclosed] at h
  exact offender?_of_balanced ((program_iff hbody he).mp h).balanced he hlist

/-- The parentheses of a list that is read as a single expression are balanced. -/
theorem offender?_of_single (hts : EndsLast ts) (h : single ts = .ok x) :
    Balance.offender? ts = none := by
  obtain ⟨body, e, hbody, he, hclosed, hlist⟩ := EndsLast.closed hts
  have hx := (single_iff hbody he).mp ((single_closed he hclosed).mp h)
  exact offender?_of_balanced hx.balanced he hlist

end Parser

namespace Balance

variable {ts : List Token}

theorem check_eq_ok (h : offender? ts = none) : check ts = .ok () := by
  rw [check, h]

/-- A reader behind the check gives what it gives on its own, if what it reads is balanced. -/
theorem checked_ok_iff {α : Type} {read : List Token → Except ParseError α} {a : α}
    (hread : ∀ a, read ts = .ok a → offender? ts = none) :
    (match check ts with
      | .error e => Except.error e
      | .ok _ => read ts) = .ok a ↔ read ts = .ok a := by
  constructor
  · intro h
    split at h
    · cases h
    · exact h
  · intro h
    rw [check_eq_ok (hread a h)]
    exact h

theorem error_of_offender {α : Type} {r : Except ParseError α} {t : Token}
    (hread : ∀ a, r = .ok a → offender? ts = none) (ht : offender? ts = some t) :
    ∃ e, r = .error e := by
  cases r with
  | error e => exact ⟨e, rfl⟩
  | ok a =>
    rw [hread a rfl] at ht
    cases ht

/-- If the end of the text comes last or not at all, what the parser reads has balanced parentheses,
so that reading behind the check gives the same programs and the same single expressions of the
same lists; and what the check refuses, the parser refuses too. -/
theorem check_refuses (hts : EndsLast ts) :
    ((∃ p, Parser.program ts = .ok p) ∨ (∃ x, Parser.single ts = .ok x) → offender? ts = none) ∧
    (∀ p, Program.ofTokens ts = .ok p ↔ Parser.program ts = .ok p) ∧
    (∀ x, Expr.ofTokens ts = .ok x ↔ Parser.single ts = .ok x) ∧
    ((∃ e, check ts = .error e) →
      (∃ e, Parser.program ts = .error e) ∧ ∃ e, Parser.single ts = .error e) := by
  have hprogram := fun p => Parser.offender?_of_program (p := p) hts
  have hsingle := fun x => Parser.offender?_of_single (x := x) hts
  refine ⟨?_, fun p => checked_ok_iff hprogram, fun x => checked_ok_iff hsingle, ?_⟩
  · rintro (⟨p, hp⟩ | ⟨x, hx⟩)
    · exact hprogram p hp
    · exact hsingle x hx
  · rintro ⟨e, he⟩
    cases hoffender : offender? ts with
    | none =>
      rw [check_eq_ok hoffender] at he
      cases he
    | some t =>
      exact ⟨error_of_offender hprogram hoffender, error_of_offender hsingle hoffender⟩

/-- Nested calls with a lambda among the arguments, and no end of the text behind them. -/
theorem check_refuses_call :
    let ts : List Token := [⟨.identifier, "f", 0⟩, ⟨.delimiter, "(", 1⟩, ⟨.delimiter, "(", 2⟩,
      ⟨.identifier, "x", 3⟩, ⟨.delimiter, ")", 4⟩, ⟨.operator, "=>", 6⟩, ⟨.identifier, "x", 9⟩,
      ⟨.delimiter, ",", 10⟩, ⟨.identifier, "g", 12⟩, ⟨.delimiter, "(", 13⟩, ⟨.delimiter, ")", 14⟩,
      ⟨.delimiter, ")", 15⟩]
    EndsLast ts ∧ (∃ p, Program.ofTokens ts = .ok p) ∧ offender? ts = none := by
  intro ts
  have hts : EndsLast ts := fun t ht => by
    revert t
    decide
  obtain ⟨hbalanced, hofTokens, -, -⟩ := check_refuses hts
  have hp : Parser.program ts =
      .ok ⟨[.expr (.call "f" [.lambda ["x"] (.var "x"), .call "g" []])]⟩ := by
    decide +kernel
  exact ⟨hts, ⟨_, (hofTokens _).mpr hp⟩, hbalanced (.inl ⟨_, hp⟩)⟩

/-- Tokens behind the end of the text are checked, but not read. -/
example :
    let ts : List Token := [⟨.identifier, "x", 0⟩, Token.endAt 1, ⟨.delimiter, "(", 1⟩]
    Parser.program ts = .ok ⟨[.expr (.var "x")]⟩ ∧ offender? ts = some ⟨.delimiter, "(", 1⟩ := by
  decide +kernel

end Balance

end Abacus
