import Abacus.Proofs.Program.Grammar
import Abacus.Proofs.Token.Scan

/-!
# The parser accepts its grammar

For every token list that a scan can return, the parser gives a program exactly when the tokens
before the end of the text are a sentence of the grammar, and blames a token or the end of the text
otherwise; the same holds of single expressions.
-/

namespace Abacus

/-- Tokens as a scan returns them: the end of the text comes last and nowhere else, there are no
blanks, and number tokens are numerals. -/
structure Scanned (body : List Token) (e : Token) : Prop where
  ends : e.isEnd
  noEnd : NoEnd body
  noBlank : ∀ t ∈ body, t.kind ≠ .blank
  isNumeral : ∀ t ∈ body, t.kind = .number → Number.IsNumeral t.text.toList

theorem Lexicon.scanned_of_tokens {l : Lexicon} {source : String} {ts : List Token}
    (h : l.tokens source = .ok ts) : ∃ body e, ts = body ++ [e] ∧ Scanned body e := by
  obtain ⟨body, rfl, hbody⟩ := Lexicon.tokens_ok h
  refine ⟨body, _, rfl, rfl, fun t ht => (hbody t ht).1.not_end, fun t ht => (hbody t ht).2,
    fun t ht hk => ?_⟩
  have hfits := (hbody t ht).1
  rwa [hk] at hfits

namespace Scanned

variable {body : List Token} {e : Token}

theorem numerals (h : Scanned body e) : Parser.Numerals body :=
  fun t ht hk => (h.isNumeral t ht hk).read?_isSome

theorem numerals_all (h : Scanned body e) : Parser.Numerals (body ++ [e]) := by
  have hk : e.kind = .endOfText := Token.kind_of_isEnd h.ends
  simp only [Parser.numerals_append, h.numerals, true_and]
  intro t ht
  rw [List.mem_singleton.mp ht, hk]
  simp

/-- On what the lexer gives, to be accepted by the parser is to be derived in the grammar. -/
theorem program_iff (h : Scanned body e) :
    (∃ p, Program.ofTokens (body ++ [e]) = .ok p) ↔ Grammar.IsProgram body := by
  simp only [Program.ofTokens_iff h.noEnd h.ends, Grammar.isProgram_iff h.numerals]

theorem single_iff (h : Scanned body e) :
    (∃ x, Expr.ofTokens (body ++ [e]) = .ok x) ↔ Grammar.IsSingle body := by
  simp only [Expr.ofTokens_iff h.noEnd h.ends, Grammar.isSingle_iff h.numerals]

/-- What is not derived is refused for a token or an end that was not expected. -/
theorem program_error (h : Scanned body e) (hbody : ¬ Grammar.IsProgram body) :
    ∃ err, Program.ofTokens (body ++ [e]) = .error err ∧ err.IsUnexpected := by
  cases hr : Program.ofTokens (body ++ [e]) with
  | ok p => exact absurd (h.program_iff.mp ⟨p, hr⟩) hbody
  | error err => exact ⟨err, rfl, Program.isUnexpected_of_ofTokens h.ends h.numerals_all hr⟩

theorem single_error (h : Scanned body e) (hbody : ¬ Grammar.IsSingle body) :
    ∃ err, Expr.ofTokens (body ++ [e]) = .error err ∧ err.IsUnexpected := by
  cases hr : Expr.ofTokens (body ++ [e]) with
  | ok x => exact absurd (h.single_iff.mp ⟨x, hr⟩) hbody
  | error err => exact ⟨err, rfl, Expr.isUnexpected_of_ofTokens h.ends h.numerals_all hr⟩

end Scanned

/-- Whatever a scan returns, reading it as a program succeeds exactly on the programs of the grammar
and reading it as a single expression exactly on the single expressions; on everything else the
error is an unexpected token or an unexpected end. -/
theorem Grammar.accepted_iff_derived :
    (∀ (l : Lexicon) (source : String) (ts : List Token), l.tokens source = .ok ts →
      ∃ body e, ts = body ++ [e] ∧ Scanned body e) ∧
    ∀ (body : List Token) (e : Token), Scanned body e →
      ((∃ p, Program.ofTokens (body ++ [e]) = .ok p) ↔ IsProgram body) ∧
      (¬ IsProgram body → ∃ err, Program.ofTokens (body ++ [e]) = .error err ∧ err.IsUnexpected) ∧
      ((∃ x, Expr.ofTokens (body ++ [e]) = .ok x) ↔ IsSingle body) ∧
      (¬ IsSingle body → ∃ err, Expr.ofTokens (body ++ [e]) = .error err ∧ err.IsUnexpected) := by
  refine ⟨fun l source ts h => Lexicon.scanned_of_tokens h, fun body e h => ?_⟩
  exact ⟨h.program_iff, h.program_error, h.single_iff, h.single_error⟩

/-- The tokens of `x = 1` are a program of the grammar and no single expression. -/
theorem Grammar.accepted_iff_derived_assignment :
    IsProgram [⟨.identifier, "x", 0⟩, ⟨.operator, "=", 2⟩, ⟨.number, "1", 4⟩] ∧
      ¬ IsSingle [⟨.identifier, "x", 0⟩, ⟨.operator, "=", 2⟩, ⟨.number, "1", 4⟩] := by
  have hscan : Lexicon.standard.tokens "x = 1" =
      .ok ([⟨.identifier, "x", 0⟩, ⟨.operator, "=", 2⟩, ⟨.number, "1", 4⟩] ++ [Token.endAt 5]) := by
    decide +kernel
  obtain ⟨body, e, hts, hscanned⟩ := Grammar.accepted_iff_derived.1 _ _ _ hscan
  obtain ⟨rfl, he⟩ := List.append_inj' hts rfl
  cases he
  obtain ⟨hprogram, -, hsingle, -⟩ := Grammar.accepted_iff_derived.2 _ _ hscanned
  constructor
  · exact hprogram.mp ⟨⟨[.assign "x" (.number 1)]⟩, by decide +kernel⟩
  · intro h
    obtain ⟨x, hx⟩ := hsingle.mpr h
    have herr : Expr.ofTokens ([⟨.identifier, "x", 0⟩, ⟨.operator, "=", 2⟩, ⟨.number, "1", 4⟩] ++
        [Token.endAt 5]) = .error (.unexpectedToken "=" 2 (some .endOfExpression)) := by
      decide +kernel
    rw [herr] at hx
    cases hx

end Abacus
