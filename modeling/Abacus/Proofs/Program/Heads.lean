import Abacus.Proofs.Program.Outcomes
import Abacus.Proofs.Program.Statements

/-!
# Ways to write a function

A function is defined with the keyword `def`, or by an assignment of a lambda whose parameters stand
in parentheses, or, if there is one parameter, by an assignment of a lambda without them
(`FunctionHead`). The three ways go through different parts of the parser, and come to the same.

* `outcome_stmt_of_head`: behind each of these heads the parser reads the body, and nothing else.
* `stmt_heads_agree`: so two heads of the same name and the same parameters make the same statement
  and leave the same tokens over, or fail with the same error, at the same place.
-/

namespace Abacus

/-- The tokens are what stands before the body of a function that is to be assigned to `t`. -/
inductive FunctionHead (t : Token) : List String → List Token → Prop
  | definition {d l e : Token} {ps : List Token} {names : List String} (hd : d.is .keyword "def")
      (ht : t.isName) (hl : l.is .delimiter "(") (hps : SpellsParams ps names)
      (he : e.is .operator "=") : FunctionHead t names (d :: t :: l :: (ps ++ [e]))
  | lambda {e l a : Token} {ps : List Token} {names : List String} (ht : t.isName)
      (hd : t.is .keyword "def" = false) (he : e.is .operator "=") (hl : l.is .delimiter "(")
      (hps : SpellsParams ps names) (ha : a.is .operator "=>") :
      FunctionHead t names (t :: e :: l :: (ps ++ [a]))
  | arrow {e p a : Token} (ht : t.isName) (hd : t.is .keyword "def" = false)
      (he : e.is .operator "=") (hp : p.kind = .identifier) (ha : a.is .operator "=>") :
      FunctionHead t [p.text] [t, e, p, a]

namespace Parser

variable {t l e a d p : Token} {ps us rest : List Token} {names : List String}

/-! ## The body of a lambda -/

/-- What reading the body `rest` of a lambda comes to. -/
def lambdaOutcome (names : List String) (rest : List Token) :
    Except ParseError (Expr × List Token) := do
  let (body, left) ← outcome (expr rest)
  .ok (.lambda names body, left)

theorem outcome_params_of_spells (hps : SpellsParams ps names) (rest : List Token) :
    outcome (params (ps ++ rest)) = .ok (names, rest) :=
  outcome_ok_iff.mpr (params_complete hps rest)

theorem outcome_operand_lambda (hl : l.is .delimiter "(") (hps : SpellsParams ps names)
    (ha : a.is .operator "=>") :
    outcome (operand (l :: (ps ++ a :: rest))) = lambdaOutcome names rest := by
  have hahead : paramsAhead (ps ++ a :: rest) = true :=
    paramsAhead_iff.mpr ⟨ps, names, a, rest, rfl, hps, ha⟩
  have hkind : l.kind = .delimiter := (Token.is_iff.mp hl).1
  have hif : l.is .keyword "if" = false := Token.is_of_is_ne hl (by decide)
  rw [operand_of_open hl, outcome_primary]
  simp only [hkind, hif, hl, hahead, outcome_params_of_spells hps, outcome_expect, ha, ↓reduceIte,
    reduceCtorEq, Bool.false_eq_true, bind, Except.bind, lambdaOutcome]

theorem outcome_operand_arrow (hp : p.kind = .identifier) (ha : a.is .operator "=>") :
    outcome (operand (p :: a :: rest)) = lambdaOutcome [p.text] rest := by
  have hif : p.is .keyword "if" = false := Token.is_of_kind_ne (by simp [hp])
  rw [operand_of_name hp, outcome_primary]
  simp only [hp, hif, ha, ↓reduceIte, reduceCtorEq, Bool.false_eq_true, lambdaOutcome]

/-- No operator takes a lambda as its first operand: the body takes all operators that follow. -/
theorem outcome_expr_of_lambda (h : outcome (operand us) = lambdaOutcome names rest) :
    outcome (expr us) = lambdaOutcome names rest := by
  rw [outcome_expr, h, lambdaOutcome]
  cases hbody : outcome (expr rest) with
  | error err => rfl
  | ok r =>
    obtain ⟨body, left⟩ := r
    obtain ⟨-, -, -, hlink⟩ := expr_sound (outcome_ok_iff.mp hbody)
    have hlinks : linksOutcome left = .ok ([], left) := by
      rw [linksOutcome, links_nil hlink]
      rfl
    simp only [bind, Except.bind, hlinks]
    rfl

/-! ## The statement -/

theorem outcome_stmt_definition (hd : d.is .keyword "def") (ht : t.isName)
    (hl : l.is .delimiter "(") (hps : SpellsParams ps names) (he : e.is .operator "=") :
    outcome (stmt (d :: t :: l :: (ps ++ e :: rest))) =
      (lambdaOutcome names rest).map fun r => (.assign t.text r.1, r.2) := by
  obtain ⟨hlen, hparams⟩ := params_complete hps (e :: rest)
  rw [stmt, if_pos hd, definition]
  simp only [name, ht, expect, hl, hparams, he, ↓reduceIte, lambdaOutcome, outcome]
  cases expr rest <;> rfl

theorem outcome_stmt_assign (ht : t.isName) (hd : t.is .keyword "def" = false)
    (he : e.is .operator "=") :
    outcome (stmt (t :: e :: us)) =
      (outcome (expr us)).map fun r => (.assign t.text r.1, r.2) := by
  simp only [stmt, hd, ht, he, Bool.and_self, ↓reduceIte, Bool.false_eq_true, outcome]
  cases expr us <;> rfl

/-- Behind a head, the parser reads the body, up to where it ends. -/
theorem outcome_stmt_of_head {head : List Token} (h : FunctionHead t names head)
    (rest : List Token) :
    outcome (stmt (head ++ rest)) =
      (lambdaOutcome names rest).map fun r => (.assign t.text r.1, r.2) := by
  cases h with
  | @definition d l e ps _ hd ht hl hps he =>
    rw [show d :: t :: l :: (ps ++ [e]) ++ rest = d :: t :: l :: (ps ++ e :: rest) by simp]
    exact outcome_stmt_definition hd ht hl hps he
  | @lambda e l a ps _ ht hd he hl hps ha =>
    rw [show t :: e :: l :: (ps ++ [a]) ++ rest = t :: e :: l :: (ps ++ a :: rest) by simp,
      outcome_stmt_assign ht hd he, outcome_expr_of_lambda (outcome_operand_lambda hl hps ha)]
  | @arrow e p a ht hd he hp ha =>
    rw [show [t, e, p, a] ++ rest = t :: e :: p :: a :: rest by simp,
      outcome_stmt_assign ht hd he, outcome_expr_of_lambda (outcome_operand_arrow hp ha)]

/-- A statement with a head is read if and only if the body is, and fails with the error of the
body. -/
theorem stmt_of_head {head : List Token} (h : FunctionHead t names head) (rest : List Token) :
    (∀ body left, Gives (expr rest) body left →
        Gives (stmt (head ++ rest)) (.assign t.text (.lambda names body)) left) ∧
      ∀ err, expr rest = .error err → stmt (head ++ rest) = .error err := by
  have hstmt := outcome_stmt_of_head h rest
  rw [lambdaOutcome] at hstmt
  constructor
  · intro body left hbody
    rw [outcome_ok_iff.mpr hbody] at hstmt
    exact outcome_ok_iff.mp hstmt
  · intro err hbody
    rw [outcome_error_iff.mpr hbody] at hstmt
    exact outcome_error_iff.mp hstmt

/-- It makes no difference how the head of a function is written. Two heads of the same name and the
same parameters, before the same tokens, make the same statement and leave the same of these tokens
over; or else the reading fails with the same error, the one of the body, which stands at a place of
these tokens. -/
theorem stmt_heads_agree {head head' : List Token} (h : FunctionHead t names head)
    (h' : FunctionHead t names head') (rest : List Token) :
    (∃ body left, left <:+ rest ∧
        Gives (stmt (head ++ rest)) (.assign t.text (.lambda names body)) left ∧
        Gives (stmt (head' ++ rest)) (.assign t.text (.lambda names body)) left) ∨
      ∃ err, stmt (head ++ rest) = .error err ∧ stmt (head' ++ rest) = .error err ∧
        expr rest = .error err ∧ (Numerals rest → ErrorAt rest err) := by
  obtain ⟨hok, herror⟩ := stmt_of_head h rest
  obtain ⟨hok', herror'⟩ := stmt_of_head h' rest
  cases hbody : expr rest with
  | ok r =>
    obtain ⟨body, left, hlen⟩ := r
    have hgives : Gives (expr rest) body left := ⟨hlen, hbody⟩
    exact .inl ⟨body, left, (expr_reaches hgives).suffix, hok body left hgives,
      hok' body left hgives⟩
  | error err =>
    exact .inr ⟨err, herror err hbody, herror' err hbody, rfl, fun hn => expr_error hn hbody⟩

/-- `def f(x) =` and `f = x =>`, before the body `x)`, which leaves the parenthesis over. -/
theorem stmt_heads_agree_arrow :
    let f : Token := ⟨.identifier, "f", 4⟩
    let x : Token := ⟨.identifier, "x", 6⟩
    let head := [⟨.keyword, "def", 0⟩, f, ⟨.delimiter, "(", 5⟩, x, ⟨.delimiter, ")", 7⟩,
      ⟨.operator, "=", 9⟩]
    let head' := [f, ⟨.operator, "=", 5⟩, x, ⟨.operator, "=>", 8⟩]
    let rest := [⟨.identifier, "x", 11⟩, ⟨.delimiter, ")", 12⟩, Token.endAt 13]
    FunctionHead f ["x"] head ∧ FunctionHead f ["x"] head' ∧
      ((∃ body left, left <:+ rest ∧
          Gives (stmt (head ++ rest)) (.assign "f" (.lambda ["x"] body)) left ∧
          Gives (stmt (head' ++ rest)) (.assign "f" (.lambda ["x"] body)) left) ∨
        ∃ err, stmt (head ++ rest) = .error err ∧ stmt (head' ++ rest) = .error err ∧
          expr rest = .error err ∧ (Numerals rest → ErrorAt rest err)) := by
  intro f x head head' rest
  have hps : SpellsParams [x, ⟨.delimiter, ")", 7⟩] ["x"] := .some (.last rfl rfl)
  have h : FunctionHead f ["x"] head := .definition rfl rfl rfl hps rfl
  have h' : FunctionHead f ["x"] head' := .arrow (p := x) rfl rfl rfl rfl rfl
  exact ⟨h, h', stmt_heads_agree h h' rest⟩

end Parser

end Abacus
