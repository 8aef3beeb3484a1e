import Abacus.Proofs.Program.Outcomes
import Abacus.Proofs.Program.Whole
import Mathlib.Data.List.Forall2

/-!
# Operators with two spellings

Some operators are written as a word or with signs, and the power is written with either of two
signs (`Token.synonyms`). The spellings are tokens of different kinds, but an expression makes no
difference between them.

* `Token.Interchanges`: the tokens are the same but for the spelling of an operator.
* `ReadsAlike`: two readings come to the same, or fail with errors that differ at most in the text
  of the token that they show.
* `Parser.expr_alike` and the lemmas with it: each function of the parser reads lists alike whose
  tokens interchange, one by one.
* `Expr.ofTokens_interchanged`: so whole lists are the same expression or are refused for the same
  reason, at the same position.
-/

namespace Abacus

/-! ## Tokens -/

namespace Token

/-- The spellings of the operators that have two, with the kinds of their tokens. -/
def synonyms : List ((TokenKind × String) × (TokenKind × String)) :=
  [((.keyword, "and"), (.operator, "&&")), ((.keyword, "or"), (.operator, "||")),
    ((.keyword, "not"), (.operator, "!")), ((.operator, "**"), (.operator, "^"))]

/-- The tokens are the same, or they are two spellings of an operator, at the same position. -/
inductive Interchanges : Token → Token → Prop
  | same (t : Token) : Interchanges t t
  | swap {t u : Token}
      (h : (t.content, u.content) ∈ synonyms ∨ (u.content, t.content) ∈ synonyms)
      (hpos : t.pos = u.pos) : Interchanges t u

/-- The token is a spelling of an operator that has two. -/
def HasSynonym (t : Token) : Prop := ∃ p ∈ synonyms, t.content = p.1 ∨ t.content = p.2

variable {t u : Token}

namespace Interchanges

theorem pos_eq (h : t.Interchanges u) : t.pos = u.pos := by
  cases h with
  | same => rfl
  | swap _ hpos => exact hpos

/-- Tokens that interchange are equal or have another spelling each. -/
theorem eq_or_hasSynonym (h : t.Interchanges u) : t = u ∨ t.HasSynonym ∧ u.HasSynonym := by
  cases h with
  | same => exact .inl rfl
  | swap h =>
    rcases h with h | h
    · exact .inr ⟨⟨_, h, .inl rfl⟩, ⟨_, h, .inr rfl⟩⟩
    · exact .inr ⟨⟨_, h, .inr rfl⟩, ⟨_, h, .inl rfl⟩⟩

/-- What makes no difference between synonyms makes none between tokens that interchange. -/
theorem congr {β : Type} (f : TokenKind × String → β) (hf : ∀ p ∈ synonyms, f p.1 = f p.2)
    (h : t.Interchanges u) : f t.content = f u.content := by
  cases h with
  | same => rfl
  | swap h =>
    rcases h with h | h
    · exact hf _ h
    · exact (hf _ h).symm

/-- The spelling of an operator makes no difference between operands. -/
theorem binaryOp?_eq (h : t.Interchanges u) : t.binaryOp? = u.binaryOp? :=
  h.congr (fun c => binaryOp? ⟨c.1, c.2, 0⟩) (by decide)

theorem prefixOp?_eq (h : t.Interchanges u) : t.prefixOp? = u.prefixOp? :=
  h.congr (fun c => prefixOp? ⟨c.1, c.2, 0⟩) (by decide)

theorem isEnd_eq (h : t.Interchanges u) : t.isEnd = u.isEnd :=
  h.congr (fun c => isEnd ⟨c.1, c.2, 0⟩) (by decide)

theorem identifier_eq (h : t.Interchanges u) :
    decide (t.kind = .identifier) = decide (u.kind = .identifier) :=
  h.congr (fun c => decide (c.1 = .identifier)) (by decide)

theorem isSeparator_eq (h : t.Interchanges u) : t.isSeparator = u.isSeparator :=
  h.congr (fun c => isSeparator ⟨c.1, c.2, 0⟩) (by decide)

end Interchanges

/-- Only operators and words have another spelling. -/
theorem HasSynonym.kind (h : t.HasSynonym) : t.kind = .operator ∨ t.kind = .keyword := by
  obtain ⟨p, hp, ht⟩ := h
  have hkinds : ∀ p ∈ synonyms, (p.1.1 = .operator ∨ p.1.1 = .keyword) ∧ p.2.1 = .operator := by
    decide
  rcases ht with ht | ht
  · rw [show t.kind = p.1.1 from congrArg Prod.fst ht]
    exact (hkinds p hp).1
  · exact .inl ((congrArg Prod.fst ht).trans (hkinds p hp).2)

theorem HasSynonym.not_identifier (h : t.HasSynonym) : t.kind ≠ .identifier := by
  rcases h.kind with hk | hk
  · simp [hk]
  · simp [hk]

/-- The spellings in `synonyms` are the only texts of such a token. -/
theorem HasSynonym.is_eq_false {kind : TokenKind} {s : String} (h : t.HasSynonym)
    (hs : ∀ p ∈ synonyms, p.1.2 ≠ s ∧ p.2.2 ≠ s) : t.is kind s = false := by
  obtain ⟨p, hp, ht⟩ := h
  rcases ht with ht | ht
  · simp [is, show t.text = p.1.2 from congrArg Prod.snd ht, hs p hp]
  · simp [is, show t.text = p.2.2 from congrArg Prod.snd ht, hs p hp]

/-- A test for any other text comes out the same. -/
theorem Interchanges.is_eq (h : t.Interchanges u) (kind : TokenKind) (s : String)
    (hs : ∀ p ∈ synonyms, p.1.2 ≠ s ∧ p.2.2 ≠ s) : t.is kind s = u.is kind s := by
  rcases h.eq_or_hasSynonym with rfl | ⟨ht, hu⟩
  · rfl
  · rw [ht.is_eq_false hs, hu.is_eq_false hs]

end Token

/-! ## Readings -/

/-- The errors are the same but for the text of the token that they show. -/
inductive ParseError.SameButText : ParseError → ParseError → Prop
  | refl (e : ParseError) : SameButText e e
  | token (text text' : String) (pos : Nat) (expected : Option Expectation) :
      SameButText (.unexpectedToken text pos expected) (.unexpectedToken text' pos expected)

/-- Both readings give results that `R` relates, or both fail, with errors that are the same but for
the text of the token that they show. -/
inductive ReadsAlike {α β : Type} (R : α → β → Prop) :
    Except ParseError α → Except ParseError β → Prop
  | ok {a : α} {b : β} (h : R a b) : ReadsAlike R (.ok a) (.ok b)
  | error {e e' : ParseError} (h : e.SameButText e') : ReadsAlike R (.error e) (.error e')

/-- The same value, before tokens that interchange. -/
def SameFront {α : Type} (r r' : α × List Token) : Prop :=
  r.1 = r'.1 ∧ List.Forall₂ Token.Interchanges r.2 r'.2

namespace ReadsAlike

variable {α β γ δ : Type} {R : α → β → Prop} {S : γ → δ → Prop}

/-- Two readings in a row come out alike if each of them does. -/
theorem bind {r : Except ParseError α} {r' : Except ParseError β} {k : α → Except ParseError γ}
    {k' : β → Except ParseError δ} (h : ReadsAlike R r r')
    (hk : ∀ a b, r = .ok a → R a b → ReadsAlike S (k a) (k' b)) :
    ReadsAlike S (r >>= k) (r' >>= k') := by
  cases h with
  | ok h => exact hk _ _ rfl h
  | error h => exact .error h

/-- Two readings in a row: where the first one stops, the second one starts with tokens that
interchange. -/
theorem bindFront {r r' : Except ParseError (α × List Token)}
    {k k' : α × List Token → Except ParseError γ} {S : γ → γ → Prop} (h : ReadsAlike SameFront r r')
    (hk : ∀ a rest rest', r = .ok (a, rest) → List.Forall₂ Token.Interchanges rest rest' →
      ReadsAlike S (k (a, rest)) (k' (a, rest'))) : ReadsAlike S (r >>= k) (r' >>= k') :=
  h.bind fun a b ha hab => by
    obtain ⟨a, rest⟩ := a
    obtain ⟨b, rest'⟩ := b
    obtain ⟨rfl, hrest⟩ := hab
    exact hk a rest rest' ha hrest

end ReadsAlike

/-- Errors at tokens that interchange differ in the text of the token at most. -/
theorem ParseError.sameButText_unexpected {ts us : List Token}
    (h : List.Forall₂ Token.Interchanges ts us) (expected : Expectation) :
    (Parser.unexpected expected ts).SameButText (Parser.unexpected expected us) := by
  cases h with
  | nil => exact .refl _
  | cons htu =>
    rw [Parser.unexpected, Parser.unexpected, ← htu.isEnd_eq, ← htu.pos_eq]
    split
    · exact .refl _
    · exact .token _ _ _ _

namespace Parser

variable {ts us : List Token}

/-- A token without another spelling is expected alike. -/
theorem expect_alike (h : List.Forall₂ Token.Interchanges ts us) (kind : TokenKind) (s : String)
    (hs : ∀ p ∈ Token.synonyms, p.1.2 ≠ s ∧ p.2.2 ≠ s) :
    ReadsAlike SameFront (outcome (expect kind s ts)) (outcome (expect kind s us)) := by
  cases h with
  | nil => exact .error (.refl _)
  | cons htu hrest =>
    rw [outcome_expect, outcome_expect]
    rcases htu.eq_or_hasSynonym with rfl | ⟨ht, hu⟩
    · split
      · exact .ok ⟨rfl, hrest⟩
      · exact .error (ParseError.sameButText_unexpected (.cons htu hrest) _)
    · simp only [ht.is_eq_false hs, hu.is_eq_false hs, Bool.false_eq_true, ↓reduceIte]
      exact .error (ParseError.sameButText_unexpected (.cons htu hrest) _)

/-! ## Parameters -/

/-- More parameters are read alike. -/
theorem moreParams_alike : {ts us : List Token} → List.Forall₂ Token.Interchanges ts us →
    ReadsAlike SameFront (outcome (moreParams ts)) (outcome (moreParams us))
  | _, _, .nil => .error (.refl _)
  | t :: ts, u :: us, .cons htu hrest => by
    rw [outcome_moreParams, outcome_moreParams]
    rcases htu.eq_or_hasSynonym with rfl | ⟨ht, hu⟩
    · split
      · cases hrest with
        | nil => exact .error (.refl _)
        | @cons v w vs ws hvw hrest =>
          simp only [← hvw.is_eq .delimiter "," (by decide), ← hvw.is_eq .delimiter ")" (by decide)]
          split
          · exact (moreParams_alike hrest).bindFront fun names _ _ _ h => .ok ⟨rfl, h⟩
          · split
            · exact .ok ⟨rfl, hrest⟩
            · exact .error (ParseError.sameButText_unexpected (.cons hvw hrest) _)
      · exact .error (ParseError.sameButText_unexpected (.cons htu hrest) _)
    · rw [if_neg ht.not_identifier, if_neg hu.not_identifier]
      exact .error (ParseError.sameButText_unexpected (.cons htu hrest) _)

/-- Parameters are read alike. -/
theorem params_alike (h : List.Forall₂ Token.Interchanges ts us) :
    ReadsAlike SameFront (outcome (params ts)) (outcome (params us)) := by
  cases h with
  | nil => exact moreParams_alike .nil
  | cons htu hrest =>
    rw [outcome_params, outcome_params, ← htu.is_eq .delimiter ")" (by decide)]
    split
    · exact .ok ⟨rfl, hrest⟩
    · exact moreParams_alike (.cons htu hrest)

theorem startsWithArrow_eq (h : List.Forall₂ Token.Interchanges ts us) :
    startsWithArrow ts = startsWithArrow us := by
  cases h with
  | nil => rfl
  | cons htu => exact htu.is_eq .operator "=>" (by decide)

/-- Whether more parameters are ahead does not depend on the spelling of operators. -/
theorem moreParamsAhead_eq : {ts us : List Token} → List.Forall₂ Token.Interchanges ts us →
    moreParamsAhead ts = moreParamsAhead us
  | _, _, .nil => rfl
  | t :: ts, u :: us, .cons htu hrest => by
    cases hrest with
    | nil => simp only [moreParamsAhead, Bool.and_false]
    | @cons v w vs ws hvw hrest =>
      simp only [moreParamsAhead, htu.identifier_eq, hvw.is_eq .delimiter "," (by decide),
        hvw.is_eq .delimiter ")" (by decide), moreParamsAhead_eq hrest, startsWithArrow_eq hrest]

/-- Whether parameters and an arrow are ahead does not depend on the spelling of operators. -/
theorem paramsAhead_eq (h : List.Forall₂ Token.Interchanges ts us) :
    paramsAhead ts = paramsAhead us := by
  cases h with
  | nil => rfl
  | cons htu hrest =>
    rw [paramsAhead, paramsAhead, htu.is_eq .delimiter ")" (by decide), startsWithArrow_eq hrest,
      moreParamsAhead_eq (.cons htu hrest)]

/-! ## Expressions -/

/-- An operator with two spellings is no operand. -/
theorem outcome_primary_of_hasSynonym {t : Token} (ht : t.HasSynonym) (us : List Token) :
    outcome (primary (t :: us)) = .error (unexpected .expression (t :: us)) := by
  have hkind : t.kind ≠ .number ∧ t.kind ≠ .identifier ∧ t.kind ≠ .delimiter := by
    rcases ht.kind with hk | hk
    · simp [hk]
    · simp [hk]
  have hif : t.is .keyword "if" = false := ht.is_eq_false (by decide)
  simp only [outcome_primary, hkind, hif, Token.is_of_kind_ne hkind.2.2, ↓reduceIte,
    Bool.false_eq_true]

-- On the length of the first list, with the measures by which the functions themselves end.
mutual

/-- Expressions are read alike. -/
theorem expr_alike {ts us : List Token} (h : List.Forall₂ Token.Interchanges ts us) :
    ReadsAlike SameFront (outcome (expr ts)) (outcome (expr us)) := by
  rw [outcome_expr, outcome_expr]
  refine (operand_alike h).bindFront fun first rest rest' hfirst hrest => ?_
  have hlen := length_lt_of_outcome hfirst
  exact (links_alike hrest).bindFront fun ls _ _ _ hrest => .ok ⟨rfl, hrest⟩
termination_by 5 * ts.length + 2

/-- Operators and operands are read alike. -/
theorem links_alike {ts us : List Token} (h : List.Forall₂ Token.Interchanges ts us) :
    ReadsAlike SameFront (linksOutcome ts) (linksOutcome us) := by
  cases h with
  | nil =>
    rw [linksOutcome_nil]
    exact .ok ⟨rfl, .nil⟩
  | @cons t u ts us htu hrest =>
    rw [linksOutcome_cons, linksOutcome_cons, ← htu.binaryOp?_eq]
    cases t.binaryOp? with
    | none => exact .ok ⟨rfl, .cons htu hrest⟩
    | some op =>
      refine (operand_alike hrest).bindFront fun x rest rest' hx hrest => ?_
      have hlen := length_lt_of_outcome hx
      exact (links_alike hrest).bindFront fun ls _ _ _ hrest => .ok ⟨rfl, hrest⟩
termination_by 5 * ts.length

/-- Operands are read alike. -/
theorem operand_alike {ts us : List Token} (h : List.Forall₂ Token.Interchanges ts us) :
    ReadsAlike SameFront (outcome (operand ts)) (outcome (operand us)) := by
  cases h with
  | nil =>
    rw [outcome_operand_nil]
    exact .error (.refl _)
  | @cons t u ts us htu hrest =>
    rw [outcome_operand, outcome_operand, ← htu.prefixOp?_eq]
    cases t.prefixOp? with
    | none => exact primary_alike (.cons htu hrest)
    | some op => exact (operand_alike hrest).bindFront fun x _ _ _ hrest => .ok ⟨rfl, hrest⟩
termination_by 5 * ts.length + 1

/-- Operands without an operator in front are read alike. -/
theorem primary_alike {ts us : List Token} (h : List.Forall₂ Token.Interchanges ts us) :
    ReadsAlike SameFront (outcome (primary ts)) (outcome (primary us)) := by
  cases h with
  | nil =>
    rw [outcome_primary_nil]
    exact .error (.refl _)
  | @cons t u ts us htu hrest =>
    rcases htu.eq_or_hasSynonym with rfl | ⟨ht, hu⟩
    · -- The first tokens are the same, so that both readings take the same branch.
      rw [outcome_primary, outcome_primary, ← paramsAhead_eq hrest]
      split
      · cases Number.read? t.text with
        | none => exact .error (.refl _)
        | some x => exact .ok ⟨rfl, hrest⟩
      split
      · refine (expr_alike hrest).bindFront fun condition us₁ _ h₁ hrest => ?_
        refine (expect_alike hrest .keyword "then" (by decide)).bindFront fun _ us₂ _ h₂ hrest => ?_
        -- The lengths are what the recursion goes by: each reading starts behind the one before.
        have hlen₁ := length_lt_of_outcome h₁
        have hlen₂ := length_lt_of_outcome h₂
        refine (expr_alike hrest).bindFront fun thenBranch us₃ _ h₃ hrest => ?_
        refine (expect_alike hrest .keyword "else" (by decide)).bindFront fun _ us₄ _ h₄ hrest => ?_
        have hlen₃ := length_lt_of_outcome h₃
        have hlen₄ := length_lt_of_outcome h₄
        exact (expr_alike hrest).bindFront fun elseBranch _ _ _ hrest => .ok ⟨rfl, hrest⟩
      split
      · cases hrest with
        | nil => exact .ok ⟨rfl, .nil⟩
        | @cons v w vs ws hvw hrest =>
          simp only [← hvw.is_eq .operator "=>" (by decide), ← hvw.is_eq .delimiter "(" (by decide)]
          split
          · exact (expr_alike hrest).bindFront fun body _ _ _ hrest => .ok ⟨rfl, hrest⟩
          split
          · exact (args_alike hrest).bindFront fun xs _ _ _ hrest => .ok ⟨rfl, hrest⟩
          · exact .ok ⟨rfl, .cons hvw hrest⟩
      split
      · split
        · refine (params_alike hrest).bindFront fun names us₁ _ h₁ hrest => ?_
          refine (expect_alike hrest .operator "=>" (by decide)).bindFront
            fun _ us₂ _ h₂ hrest => ?_
          have hlen₁ := length_lt_of_outcome h₁
          have hlen₂ := length_lt_of_outcome h₂
          exact (expr_alike hrest).bindFront fun body _ _ _ hrest => .ok ⟨rfl, hrest⟩
        · refine (expr_alike hrest).bindFront fun x _ _ _ hrest => ?_
          exact (expect_alike hrest .delimiter ")" (by decide)).bindFront fun _ _ _ _ hrest =>
            .ok ⟨rfl, hrest⟩
      · exact .error (ParseError.sameButText_unexpected (.cons htu hrest) _)
    · -- A token that has another spelling starts no operand, in either list.
      rw [outcome_primary_of_hasSynonym ht, outcome_primary_of_hasSynonym hu]
      exact .error (ParseError.sameButText_unexpected (.cons htu hrest) _)
termination_by 5 * ts.length

/-- Arguments are read alike. -/
theorem args_alike {ts us : List Token} (h : List.Forall₂ Token.Interchanges ts us) :
    ReadsAlike SameFront (outcome (args ts)) (outcome (args us)) := by
  cases h with
  | nil =>
    rw [outcome_args_nil]
    exact moreArgs_alike .nil
  | @cons t u ts us htu hrest =>
    rw [outcome_args, outcome_args, ← htu.is_eq .delimiter ")" (by decide)]
    split
    · exact .ok ⟨rfl, hrest⟩
    · exact moreArgs_alike (.cons htu hrest)
termination_by 5 * ts.length + 4

/-- At least one argument is read alike. -/
theorem moreArgs_alike {ts us : List Token} (h : List.Forall₂ Token.Interchanges ts us) :
    ReadsAlike SameFront (outcome (moreArgs ts)) (outcome (moreArgs us)) := by
  rw [outcome_moreArgs, outcome_moreArgs]
  refine (expr_alike h).bindFront fun x rest rest' hx hrest => ?_
  have hlen := length_lt_of_outcome hx
  cases hrest with
  | nil => exact .error (.refl _)
  | @cons v w vs ws hvw hrest =>
    have hvs : vs.length < ts.length := Nat.lt_of_succ_lt hlen
    simp only [← hvw.is_eq .delimiter "," (by decide), ← hvw.is_eq .delimiter ")" (by decide)]
    split
    · exact (moreArgs_alike hrest).bindFront fun xs _ _ _ hrest => .ok ⟨rfl, hrest⟩
    split
    · exact .ok ⟨rfl, hrest⟩
    · exact .error (ParseError.sameButText_unexpected (.cons hvw hrest) _)
termination_by 5 * ts.length + 3

end

/-! ## Whole lists -/

theorem skipSeparators_interchanged (h : List.Forall₂ Token.Interchanges ts us) :
    List.Forall₂ Token.Interchanges (skipSeparators ts) (skipSeparators us) := by
  unfold skipSeparators
  induction h with
  | nil => exact .nil
  | cons htu hrest ih =>
    rw [List.dropWhile_cons, List.dropWhile_cons, ← htu.isSeparator_eq]
    split
    · exact ih
    · exact .cons htu hrest

/-- Single expressions are read alike. -/
theorem single_alike (h : List.Forall₂ Token.Interchanges (closed ts) (closed us)) :
    ReadsAlike Eq (single ts) (single us) := by
  rw [single_eq_outcome, single_eq_outcome]
  refine (expr_alike (skipSeparators_interchanged h)).bindFront fun x rest rest' _ hrest => ?_
  have hskip := skipSeparators_interchanged hrest
  simp only
  generalize skipSeparators rest = left at hskip ⊢
  generalize skipSeparators rest' = left' at hskip ⊢
  cases hskip with
  | nil => exact .ok rfl
  | cons htu hrest =>
    simp only [← htu.isEnd_eq]
    split
    · exact .ok rfl
    · exact .error (ParseError.sameButText_unexpected (.cons htu hrest) _)

end Parser

namespace Balance

variable {ts us : List Token}

/-- The same place is found unbalanced, by tokens that interchange. -/
theorem offenderFrom_interchanged {opened opened' : List Token}
    (hopened : List.Forall₂ Token.Interchanges opened opened')
    (h : List.Forall₂ Token.Interchanges ts us) :
    Option.Rel Token.Interchanges (offenderFrom opened ts) (offenderFrom opened' us) := by
  induction h generalizing opened opened' with
  | nil =>
    cases hopened with
    | nil => exact .none
    | cons htu => exact .some htu
  | cons htu _ ih =>
    simp only [offenderFrom, ← htu.is_eq .delimiter "(" (by decide),
      ← htu.is_eq .delimiter ")" (by decide)]
    split
    · exact ih (.cons htu hopened)
    split
    · cases hopened with
      | nil => exact .some htu
      | cons _ hopened => exact ih hopened
    · exact ih hopened

/-- The check for balance comes out alike. -/
theorem check_alike (h : List.Forall₂ Token.Interchanges ts us)
    (hend : endPosition? ts = endPosition? us) : ReadsAlike Eq (check ts) (check us) := by
  have hoffender : Option.Rel Token.Interchanges (offender? ts) (offender? us) :=
    offenderFrom_interchanged .nil h
  rw [check, check, hend]
  generalize offender? ts = offender at hoffender ⊢
  generalize offender? us = offender' at hoffender ⊢
  cases hoffender with
  | none => exact .ok rfl
  | @some t u htu =>
    have htext : (t.text = "(") = (u.text = "(") :=
      htu.congr (fun c => c.2 = "(") (by decide)
    simp only [htext, htu.pos_eq]
    split
    · exact .error (.refl _)
    · exact .error (.token _ _ _ _)

end Balance

namespace Expr

variable {ts us : List Token} {e : Token}

/-- Expressions come out alike, with the check for balance. -/
theorem ofTokens_alike (he : e.isEnd) (h : List.Forall₂ Token.Interchanges ts us) :
    ReadsAlike Eq (Expr.ofTokens (ts ++ [e])) (Expr.ofTokens (us ++ [e])) := by
  have hclosed : List.Forall₂ Token.Interchanges (ts ++ [e]) (us ++ [e]) :=
    List.rel_append h (.cons (.same e) .nil)
  have hend : Balance.endPosition? (ts ++ [e]) = Balance.endPosition? (us ++ [e]) := by
    simp [Balance.endPosition?, he]
  rw [Expr.ofTokens_eq_bind, Expr.ofTokens_eq_bind]
  refine (Balance.check_alike hclosed hend).bind fun _ _ _ _ => Parser.single_alike ?_
  rw [Parser.closed_of_end he, Parser.closed_of_end he]
  exact hclosed

/-- Where the end of the text comes last, it makes no difference how operators with two spellings
are spelled, and each of them may be spelled in its own way: the tokens are the same expression, or
no expression at all. If they are none, the error is the same but for the text that it shows. -/
theorem ofTokens_interchanged (he : e.isEnd) (h : List.Forall₂ Token.Interchanges ts us) :
    (∀ x, Expr.ofTokens (ts ++ [e]) = .ok x ↔ Expr.ofTokens (us ++ [e]) = .ok x) ∧
      ∀ err err', Expr.ofTokens (ts ++ [e]) = .error err →
        Expr.ofTokens (us ++ [e]) = .error err' → err.SameButText err' := by
  have halike := ofTokens_alike he h
  generalize Expr.ofTokens (ts ++ [e]) = r at halike ⊢
  generalize Expr.ofTokens (us ++ [e]) = r' at halike ⊢
  cases halike with
  | ok hx =>
    cases hx
    exact ⟨fun _ => Iff.rfl, fun _ _ h => by cases h⟩
  | error herr =>
    refine ⟨fun _ => iff_of_false nofun nofun, fun _ _ h h' => ?_⟩
    cases h
    cases h'
    exact herr

/-- `x and not y` and `x && ! y` are one expression. -/
theorem ofTokens_interchanged_and_not :
    let ts : List Token := [⟨.identifier, "x", 0⟩, ⟨.keyword, "and", 2⟩, ⟨.keyword, "not", 6⟩,
      ⟨.identifier, "y", 10⟩]
    let us : List Token := [⟨.identifier, "x", 0⟩, ⟨.operator, "&&", 2⟩, ⟨.operator, "!", 6⟩,
      ⟨.identifier, "y", 10⟩]
    let e : Token := Token.endAt 11
    e.isEnd ∧ List.Forall₂ Token.Interchanges ts us ∧
      Expr.ofTokens (us ++ [e]) = .ok (.binary .and (.var "x") (.unary .not (.var "y"))) := by
  intro ts us e
  have h : List.Forall₂ Token.Interchanges ts us :=
    .cons (.same _) (.cons (.swap (by decide) rfl) (.cons (.swap (by decide) rfl)
      (.cons (.same _) .nil)))
  have hts : Expr.ofTokens (ts ++ [e]) =
      .ok (.binary .and (.var "x") (.unary .not (.var "y"))) := by
    decide +kernel
  exact ⟨rfl, h, ((ofTokens_interchanged rfl h).1 _).mp hts⟩

/-- An error shows the operator in its own spelling. -/
example :
    Expr.ofTokens [⟨.keyword, "and", 0⟩, Token.endAt 3] =
        .error (.unexpectedToken "and" 0 (some .expression)) ∧
      Expr.ofTokens [⟨.operator, "&&", 0⟩, Token.endAt 3] =
        .error (.unexpectedToken "&&" 0 (some .expression)) := by
  decide +kernel

end Expr

end Abacus
