import Abacus.Proofs.Program.Acceptance
import Abacus.Proofs.Token.Spans

/-!
# What stands in front of an error

Errors of the parser come at the first token that makes a list impossible to complete, or earlier,
and never later: whatever stands in front of the token that the error names is the start of a
program (`Parser.program_fails_in_time`). How the functions of the parser fail is said in
`Abacus.Proofs.Program.Failures`; what is left is to find the token. The error shows its position,
and in a scanned list positions grow.
-/

namespace Abacus

/-- The error names the token, as one that cannot stand where it stands or as the end of the text
that cannot come yet. -/
def ParseError.At (t : Token) : ParseError → Prop
  | .unexpectedToken text pos _ => t.isEnd = false ∧ t.text = text ∧ t.pos = pos
  | .unexpectedEnd _ pos => t.isEnd ∧ pos = some t.pos
  | .badNumeral _ => False

section Places

variable {ts rest : List Token} {t u : Token} {err : ParseError} {i j : Nat}

theorem ParseError.at_unexpected (expected : Expectation) (t : Token) (rest : List Token) :
    (Parser.unexpected expected (t :: rest)).At t := by
  rw [Parser.unexpected]
  split
  · rename_i ht
    exact ⟨ht, rfl⟩
  · rename_i ht
    exact ⟨by simpa using ht, rfl, rfl⟩

/-- The tokens that an error names stand at one position. -/
theorem ParseError.At.pos_eq (ht : err.At t) (hu : err.At u) : t.pos = u.pos := by
  cases err with
  | unexpectedToken text pos expected => exact ht.2.2.trans hu.2.2.symm
  | unexpectedEnd expected pos => exact Option.some.inj (ht.2.symm.trans hu.2)
  | badNumeral text => exact ht.elim

/-- Where positions grow, a token is known from its position. -/
theorem eq_of_pos_eq (hts : ts.Pairwise fun t u => t.pos < u.pos) (hi : ts[i]? = some t)
    (hj : ts[j]? = some u) (hpos : t.pos = u.pos) : i = j := by
  obtain ⟨hilt, rfl⟩ := List.getElem?_eq_some_iff.mp hi
  obtain ⟨hjlt, rfl⟩ := List.getElem?_eq_some_iff.mp hj
  have hgrow := List.pairwise_iff_getElem.mp hts
  rcases Nat.lt_trichotomy i j with hlt | heq | hlt
  · exact absurd (hgrow i j hilt hjlt hlt) (by omega)
  · exact heq
  · exact absurd (hgrow j i hjlt hilt hlt) (by omega)

/-- What fails as a program in front of the end of the text fails at a token, and what stands in
front of the token can be completed to a program. -/
theorem Parser.FailsAt.exists_index {body : List Token} {e : Token}
    (h : FailsAt SomeProgram (body ++ [e]) err) (he : e.isEnd) :
    ∃ (k : Nat) (t : Token), (body ++ [e])[k]? = some t ∧ err.At t ∧
      Completes SomeProgram ((body ++ [e]).take k) := by
  obtain ⟨expected, before, rest, hts, rfl, hbefore⟩ := h
  have hnone : NoEnd before := by
    obtain ⟨more, p, hp⟩ := hbefore
    exact (noEnd_append.mp hp.noEnd).1
  obtain ⟨rest, rfl, -⟩ := rest_of_noEnd hts hnone he
  have hne : rest ++ [e] ≠ [] := by simp
  obtain ⟨t, us, htail⟩ := List.exists_cons_of_ne_nil hne
  refine ⟨before.length, t, ?_, ?_, ?_⟩
  · rw [hts, htail, List.getElem?_append_right (Nat.le_refl _), Nat.sub_self]
    rfl
  · rw [htail]
    exact ParseError.at_unexpected expected t us
  · rwa [hts, List.take_left]

/-- If a list of tokens that a scan returns is no program, the parser's error names a token of it;
and if it names the one with the index `k`, the tokens in front of this one can be completed to a
program. -/
theorem Parser.program_fails_in_time {l : Lexicon} {source : String}
    (hscan : l.tokens source = .ok ts) (herr : Parser.program ts = .error err) :
    (∃ (k : Nat) (t : Token), ts[k]? = some t ∧ err.At t) ∧
      ∀ (k : Nat) (t : Token), ts[k]? = some t → err.At t →
        ∃ more p, NoEnd (ts.take k ++ more) ∧ ∀ e : Token, e.isEnd →
          Program.ofTokens (ts.take k ++ more ++ [e]) = .ok p ∧
            Parser.program (ts.take k ++ more ++ [e]) = .ok p := by
  obtain ⟨body, rfl, hlex⟩ := Lexicon.lexed_of_tokens hscan
  obtain ⟨body', e, hts, hscanned⟩ := Lexicon.scanned_of_tokens hscan
  obtain ⟨rfl, he⟩ := List.append_inj' hts rfl
  cases he
  have hgrow : (body ++ [Token.endAt source.length]).Pairwise fun t u => t.pos < u.pos := by
    rw [← String.length_toList]
    exact hlex.ordered_end.imp And.left
  have hclosed : Parser.closed (body ++ [Token.endAt source.length]) =
      body ++ [Token.endAt source.length] := Parser.closed_of_end rfl
  have hfails := Parser.program_fails (by rw [hclosed]; exact hscanned.numerals_all) herr
  rw [hclosed] at hfails
  obtain ⟨k, t, hk, ht, more, p, hp⟩ := hfails.exists_index rfl
  refine ⟨⟨k, t, hk, ht⟩, fun k' t' hk' ht' => ?_⟩
  obtain rfl : k' = k := eq_of_pos_eq hgrow hk' hk (ht'.pos_eq ht)
  refine ⟨more, p, hp.noEnd, fun e he => ⟨?_, ?_⟩⟩
  · exact (Program.ofTokens_iff hp.noEnd he).mpr hp
  · exact (Parser.program_iff hp.noEnd he).mpr hp

/-- The argument that is missing in `f(1, )`: the tokens in front of the last parenthesis are the
start of a program. -/
theorem Parser.program_fails_in_time_call :
    let ts : List Token := [⟨.identifier, "f", 0⟩, ⟨.delimiter, "(", 1⟩, ⟨.number, "1", 2⟩,
      ⟨.delimiter, ",", 3⟩, ⟨.delimiter, ")", 5⟩, Token.endAt 6]
    Lexicon.standard.tokens "f(1, )" = .ok ts ∧
      Parser.program ts = .error (.unexpectedToken ")" 5 (some .expression)) ∧
      ∃ more p, Program.ofTokens (ts.take 4 ++ more ++ [Token.endAt 6]) = .ok p := by
  intro ts
  have hscan : Lexicon.standard.tokens "f(1, )" = .ok ts := by decide +kernel
  have herr : Parser.program ts = .error (.unexpectedToken ")" 5 (some .expression)) := by
    decide +kernel
  obtain ⟨-, hindex⟩ := program_fails_in_time hscan herr
  obtain ⟨more, p, -, hread⟩ := hindex 4 ⟨.delimiter, ")", 5⟩ rfl ⟨rfl, rfl, rfl⟩
  exact ⟨hscan, herr, more, p, (hread (Token.endAt 6) rfl).1⟩

end Places

end Abacus
