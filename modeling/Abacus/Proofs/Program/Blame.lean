import Abacus.Proofs.Program.Acceptance
import Abacus.Proofs.Token.Spans
import Abacus.Source

/-!
# What errors of reading point at

A source that cannot be read is refused with one of three errors, and each of them points at its
cause in the source (`SourceError.PointsAt`): at a character that no token starts with, at a token
that cannot stand where it stands, or behind the last character.

* `Parser.ErrorAt.names`: the reader stops at a token of the list or at its end, since it never
  passes the end of the text.
* `Balance.names_of_check`: so does the check of the parentheses.
* `Program.ofSource_ok_or_pointsAt`: with the tokens as spans of the source.
-/

namespace Abacus

/-! ## Errors of token lists -/

/-- The error names one of the tokens `body`, or the end of the text `e` behind them. -/
def ParseError.Names (body : List Token) (e : Token) : ParseError → Prop
  | .unexpectedToken text pos _ => ∃ t ∈ body, t.text = text ∧ t.pos = pos
  | .unexpectedEnd _ pos => pos = some e.pos
  | .badNumeral _ => False

section

variable {body : List Token} {e : Token} {err : ParseError}

theorem Parser.ErrorAt.names (h : Parser.ErrorAt (body ++ [e]) err) (hbody : NoEnd body)
    (he : e.isEnd) : err.Names body e := by
  obtain ⟨expected, rest, ⟨before, hts, hbefore⟩, rfl⟩ := h
  obtain ⟨rest, rfl, rfl⟩ := Parser.rest_of_noEnd hts hbefore he
  cases rest with
  | nil =>
    rw [List.nil_append, Parser.unexpected, if_pos he]
    rfl
  | cons t us =>
    have ht : t.isEnd = false := (noEnd_cons.mp (noEnd_append.mp hbody).2).1
    rw [List.cons_append, Parser.unexpected, if_neg (by simp [ht])]
    exact ⟨t, by simp, rfl, rfl⟩

/-- The offender is one of the open parentheses or stands among the tokens, as a parenthesis. -/
theorem Balance.offenderFrom_mem {opened ts : List Token} {t : Token}
    (h : offenderFrom opened ts = some t) :
    t ∈ opened ∨ t ∈ ts ∧ (t.is .delimiter "(" ∨ t.is .delimiter ")") := by
  induction ts generalizing opened with
  | nil => exact .inl (List.mem_of_mem_head? h)
  | cons u us ih =>
    have hlater : ∀ {opened'}, offenderFrom opened' us = some t →
        t ∈ opened' ∨ t ∈ u :: us ∧ (t.is .delimiter "(" ∨ t.is .delimiter ")") :=
      fun h => (ih h).imp_right fun ⟨hmem, hparen⟩ => ⟨List.mem_cons_of_mem u hmem, hparen⟩
    unfold offenderFrom at h
    split at h
    · rename_i hl
      rcases hlater h with hmem | hmem
      · rcases List.mem_cons.mp hmem with rfl | hmem
        · exact .inr ⟨List.mem_cons_self, .inl hl⟩
        · exact .inl hmem
      · exact .inr hmem
    · split at h
      · rename_i hr
        split at h
        · cases h
          exact .inr ⟨List.mem_cons_self, .inr hr⟩
        · exact (hlater h).imp_left (List.mem_cons_of_mem _)
      · exact hlater h

theorem Balance.endPosition?_append (he : e.isEnd) : endPosition? (body ++ [e]) = some e.pos := by
  simp [endPosition?, he]

theorem Balance.names_of_check (he : e.isEnd) (h : Balance.check (body ++ [e]) = .error err) :
    err.Names body e := by
  rw [Balance.check] at h
  split at h
  · cases h
  · rename_i t hoffender
    split at h
    · cases h
      exact endPosition?_append he
    · cases h
      rcases offenderFrom_mem hoffender with hmem | ⟨hmem, hparen⟩
      · cases hmem
      · -- The end of the text is no parenthesis.
        have hend : t.isEnd = false := by
          rcases hparen with ht | ht
          · exact Token.isEnd_of_is ht (by decide)
          · exact Token.isEnd_of_is ht (by decide)
        rcases List.mem_append.mp hmem with ht | ht
        · exact ⟨t, ht, rfl, rfl⟩
        · rw [List.mem_singleton.mp ht, he] at hend
          cases hend

/-- A token list that a scan returns and that is no program fails at one of its tokens or at the end
of the text. -/
theorem Scanned.names_of_ofTokens (h : Scanned body e)
    (herr : Program.ofTokens (body ++ [e]) = .error err) : err.Names body e := by
  rw [Program.ofTokens] at herr
  split at herr
  · rename_i hcheck
    cases herr
    exact Balance.names_of_check h.ends hcheck
  · have hclosed : Parser.closed (body ++ [e]) = body ++ [e] := Parser.closed_of_end h.ends
    have hfail := Parser.program_error (by rw [hclosed]; exact h.numerals_all) herr
    rw [hclosed] at hfail
    exact hfail.names h.noEnd h.ends

end

/-! ## Errors of sources -/

/-- The error points at its cause in the source: at the character that it shows, at the start of the
token that it shows, or behind the last character. -/
inductive SourceError.PointsAt (source : String) : SourceError → Prop
  | character {c : Char} {pos : Nat} (hc : source.toList[pos]? = some c) :
      PointsAt source (.scan (.unexpectedChar c pos))
  | token {text : String} {pos : Nat} {expected : Option Expectation} (hne : text ≠ "")
      (htext : Lexicon.slice source.toList pos (pos + text.length) = text.toList) :
      PointsAt source (.parse (.unexpectedToken text pos expected))
  | ending {expected : Expectation} :
      PointsAt source (.parse (.unexpectedEnd expected (some source.length)))

/-- A source without tokens is refused at a character. -/
theorem Lexicon.pointsAt_of_tokens {source : String} {e : ScanError}
    (h : Lexicon.standard.tokens source = .error e) : (SourceError.scan e).PointsAt source := by
  have hfail := tokens_error_iff.mp h
  obtain ⟨c, pos, rfl⟩ := unexpectedChar_of_scanFrom (by decide) 0 source.toList hfail
  obtain ⟨i, hpos, hc, -⟩ := scanFrom_failure 0 source.toList hfail
  rw [Nat.zero_add] at hpos
  subst hpos
  exact .character hc

/-- The tokens of a source are what stands in it at their positions. -/
theorem ParseError.Names.pointsAt {source : String} {body : List Token} {err : ParseError}
    (hlex : Lexicon.Lexed Lexicon.standard 0 0 source.toList body)
    (h : err.Names body (Token.endAt source.length)) :
    (SourceError.parse err).PointsAt source := by
  cases err with
  | unexpectedToken text pos expected =>
    obtain ⟨t, ht, rfl, rfl⟩ := h
    obtain ⟨front, rest, hsource, hpos, hstop, hne, -⟩ := hlex.span ht
    refine .token (fun hempty => hne (by rw [hempty]; rfl)) ?_
    rw [hsource, hpos, ← String.length_toList, Lexicon.slice_append]
  | unexpectedEnd expected pos =>
    rw [show pos = some source.length from h]
    exact .ending
  | badNumeral text => exact h.elim

/-- Every source is a program or is refused with an error that points at its cause. No other error
comes up: every number token is a numeral, and no list of tokens is left through its end. -/
theorem Program.ofSource_ok_or_pointsAt (source : String) :
    (∃ p, Program.ofSource source = .ok p) ∨
      ∃ e, Program.ofSource source = .error e ∧ e.PointsAt source := by
  cases htokens : Lexicon.standard.tokens source with
  | error e =>
    refine .inr ⟨.scan e, ?_, Lexicon.pointsAt_of_tokens htokens⟩
    rw [Program.ofSource, sourceTokens, htokens]
    rfl
  | ok ts =>
    have hread : Program.ofSource source = (Program.ofTokens ts).mapError .parse := by
      rw [Program.ofSource, sourceTokens, htokens]
      rfl
    rw [hread]
    cases hprogram : Program.ofTokens ts with
    | ok p => exact .inl ⟨p, rfl⟩
    | error err =>
      obtain ⟨body, rfl, hlex⟩ := Lexicon.lexed_of_tokens htokens
      obtain ⟨body', e, hts, hscanned⟩ := Lexicon.scanned_of_tokens htokens
      obtain ⟨rfl, he⟩ := List.append_inj' hts rfl
      cases he
      exact .inr ⟨.parse err, rfl, (hscanned.names_of_ofTokens hprogram).pointsAt hlex⟩

end Abacus
