import Abacus.Proofs.Program.Soundness

/-!
# What a reading comes to

The functions of the parser say in their types that what they leave over is shorter than what they
were given. Two readings of different lists cannot be compared like that. `Parser.outcome` forgets
the bound, and the lemmas here say what each function comes to, as a chain of the readings that it
makes (`outcome_expr`, `outcome_primary` and so on): where one of them fails, that is the outcome.
-/

namespace Abacus

namespace Parser

variable {α : Type} {ts us rest : List Token} {t : Token}

/-- What is read and the tokens left over, or the error. -/
def outcome (r : Except ParseError (Parsed α ts)) : Except ParseError (α × List Token) :=
  r.map fun p => (p.value, p.rest)

/-- The operators and operands that are read, and the tokens left over, or the error. -/
def linksOutcome (ts : List Token) : Except ParseError (Links × List Token) :=
  (links ts).map Subtype.val

/-- The outcome is a result exactly if the reading gives it. -/
theorem outcome_ok_iff {r : Except ParseError (Parsed α ts)} {a : α} :
    outcome r = .ok (a, rest) ↔ Gives r a rest := by
  cases r with
  | error e => exact iff_of_false nofun fun ⟨_, h⟩ => by cases h
  | ok p =>
    obtain ⟨a', rest', hlen⟩ := p
    constructor
    · intro h
      cases h
      exact ⟨hlen, rfl⟩
    · rintro ⟨_, h⟩
      cases h
      rfl

/-- The outcome is an error exactly if the reading fails with it. -/
theorem outcome_error_iff {r : Except ParseError (Parsed α ts)} {e : ParseError} :
    outcome r = .error e ↔ r = .error e := by
  cases r with
  | error e' => simp [outcome, Except.map]
  | ok p => simp [outcome, Except.map]

/-- What is left over is shorter. -/
theorem length_lt_of_outcome {r : Except ParseError (Parsed α ts)} {a : α}
    (h : outcome r = .ok (a, rest)) : rest.length < ts.length :=
  (outcome_ok_iff.mp h).choose

/-! ## Tokens and parameters -/

theorem outcome_expect (kind : TokenKind) (text : String) (t : Token) (ts : List Token) :
    outcome (expect kind text (t :: ts)) =
      if t.is kind text then .ok (t, ts) else .error (unexpected (.text text) (t :: ts)) := by
  rw [expect]
  split <;> rfl

/-- What taking a token that meets a test comes to. -/
def takeOutcome (test : Token → Bool) (expected : Expectation) :
    List Token → Except ParseError (Token × List Token)
  | [] => .error (unexpected expected [])
  | t :: us => if test t then .ok (t, us) else .error (unexpected expected (t :: us))

/-- A token that is taken shortens what is left. -/
theorem length_lt_of_takeOutcome {test : Token → Bool} {expected : Expectation}
    (h : takeOutcome test expected ts = .ok (t, rest)) : rest.length < ts.length := by
  cases ts with
  | nil => cases h
  | cons u us =>
    rw [takeOutcome] at h
    split at h
    · cases h
      exact Nat.lt_succ_self _
    · cases h

theorem outcome_expect_eq (kind : TokenKind) (text : String) (ts : List Token) :
    outcome (expect kind text ts) = takeOutcome (·.is kind text) (.text text) ts := by
  cases ts with
  | nil => rfl
  | cons t us => rw [outcome_expect]; rfl

theorem outcome_moreParams (t : Token) (us : List Token) :
    outcome (moreParams (t :: us)) =
      if t.kind = .identifier then
        match us with
        | [] => .error (unexpected (.text ")") [])
        | u :: vs =>
          if u.is .delimiter "," then do
            let (names, rest) ← outcome (moreParams vs)
            .ok (t.text :: names, rest)
          else if u.is .delimiter ")" then .ok ([t.text], vs)
          else .error (unexpected (.text ")") (u :: vs))
      else .error (unexpected .parameterName (t :: us)) := by
  cases us with
  | nil =>
    rw [moreParams]
    split <;> rfl
  | cons u vs =>
    rw [moreParams]
    split
    · simp only
      split
      · cases moreParams vs <;> rfl
      · split <;> rfl
    · rfl

theorem outcome_params (t : Token) (us : List Token) :
    outcome (params (t :: us)) =
      if t.is .delimiter ")" then .ok ([], us) else outcome (moreParams (t :: us)) := by
  rw [params]
  split <;> rfl

/-! ## Expressions -/

/-- An expression is an operand and the links behind it. -/
theorem outcome_expr (ts : List Token) :
    outcome (expr ts) = (do
      let (first, us) ← outcome (operand ts)
      let (ls, rest) ← linksOutcome us
      .ok (Chain.toExpr first ls, rest)) := by
  rw [expr]
  simp only [outcome, linksOutcome, Except.map, bind, Except.bind]
  rcases operand ts with e | ⟨first, us, h⟩
  · rfl
  simp only
  cases links us <;> rfl

theorem linksOutcome_nil : linksOutcome [] = .ok ([], []) := by
  rw [linksOutcome, links]
  rfl

theorem linksOutcome_cons (t : Token) (us : List Token) :
    linksOutcome (t :: us) =
      match t.binaryOp? with
      | none => .ok ([], t :: us)
      | some op => (do
        let (x, us) ← outcome (operand us)
        let (ls, rest) ← linksOutcome us
        .ok ((op, x) :: ls, rest)) := by
  rw [linksOutcome, links]
  cases t.binaryOp? with
  | none => rfl
  | some op =>
    simp only [outcome, linksOutcome, Except.map, bind, Except.bind]
    rcases operand us with e | ⟨x, us₁, h⟩
    · rfl
    simp only
    cases links us₁ <;> rfl

theorem outcome_operand_nil : outcome (operand []) = .error (unexpected .expression []) := by
  rw [operand]
  rfl

theorem outcome_operand (t : Token) (us : List Token) :
    outcome (operand (t :: us)) =
      match t.prefixOp? with
      | some op => do
        let (x, rest) ← outcome (operand us)
        .ok (.unary op x, rest)
      | none => outcome (primary (t :: us)) := by
  rw [operand]
  cases t.prefixOp? with
  | none => rfl
  | some op => cases operand us <;> rfl

theorem outcome_primary_nil : outcome (primary []) = .error (unexpected .expression []) := by
  rw [primary.eq_def]
  rfl

/-- An operand without an operator in front, by its first token. -/
theorem outcome_primary (t : Token) (us : List Token) :
    outcome (primary (t :: us)) =
      if t.kind = .number then
        match Number.read? t.text with
        | some x => .ok (.number x, us)
        | none => .error (.badNumeral t.text)
      else if t.is .keyword "if" then do
        let (condition, us) ← outcome (expr us)
        let (_, us) ← outcome (expect .keyword "then" us)
        let (thenBranch, us) ← outcome (expr us)
        let (_, us) ← outcome (expect .keyword "else" us)
        let (elseBranch, rest) ← outcome (expr us)
        .ok (.conditional condition thenBranch elseBranch, rest)
      else if t.kind = .identifier then
        match us with
        | [] => .ok (.var t.text, [])
        | u :: vs =>
          if u.is .operator "=>" then do
            let (body, rest) ← outcome (expr vs)
            .ok (.lambda [t.text] body, rest)
          else if u.is .delimiter "(" then do
            let (xs, rest) ← outcome (args vs)
            .ok (.call t.text xs, rest)
          else .ok (.var t.text, u :: vs)
      else if t.is .delimiter "(" then
        if paramsAhead us then do
          let (names, us) ← outcome (params us)
          let (_, us) ← outcome (expect .operator "=>" us)
          let (body, rest) ← outcome (expr us)
          .ok (.lambda names body, rest)
        else do
          let (x, us) ← outcome (expr us)
          let (_, rest) ← outcome (expect .delimiter ")" us)
          .ok (x, rest)
      else .error (unexpected .expression (t :: us)) := by
  rw [primary.eq_def]
  simp only
  split
  · cases Number.read? t.text <;> rfl
  split
  · rcases expr us with e | ⟨condition, us₁, h₁⟩
    · rfl
    simp only [outcome, Except.map, bind, Except.bind]
    rcases expect .keyword "then" us₁ with e | ⟨_, us₂, h₂⟩
    · rfl
    simp only
    rcases expr us₂ with e | ⟨thenBranch, us₃, h₃⟩
    · rfl
    simp only
    -- On both sides the readings stand in the same order, and the first error is the outcome of
    -- both.
    rcases expect .keyword "else" us₃ with e | ⟨_, us₄, h₄⟩
    · rfl
    simp only
    cases expr us₄ <;> rfl
  split
  · cases us with
    | nil => rfl
    | cons u vs =>
      simp only
      split
      · cases expr vs <;> rfl
      split
      · cases args vs <;> rfl
      · rfl
  split
  · split
    · rcases params us with e | ⟨names, us₁, h₁⟩
      · rfl
      simp only [outcome, Except.map, bind, Except.bind]
      rcases expect .operator "=>" us₁ with e | ⟨_, us₂, h₂⟩
      · rfl
      simp only
      cases expr us₂ <;> rfl
    · rcases expr us with e | ⟨x, us₁, h₁⟩
      · rfl
      simp only [outcome, Except.map, bind, Except.bind]
      cases expect .delimiter ")" us₁ <;> rfl
  · rfl

theorem outcome_args_nil : outcome (args []) = outcome (moreArgs []) := by
  rw [args]

theorem outcome_args (t : Token) (us : List Token) :
    outcome (args (t :: us)) =
      if t.is .delimiter ")" then .ok ([], us) else outcome (moreArgs (t :: us)) := by
  rw [args]
  split <;> rfl

/-- At least one argument: an expression, and more of them behind a comma. -/
theorem outcome_moreArgs (ts : List Token) :
    outcome (moreArgs ts) = (do
      let (x, us) ← outcome (expr ts)
      match us with
      | [] => .error (unexpected (.text ")") [])
      | u :: vs =>
        if u.is .delimiter "," then do
          let (xs, rest) ← outcome (moreArgs vs)
          .ok (x :: xs, rest)
        else if u.is .delimiter ")" then .ok ([x], vs)
        else .error (unexpected (.text ")") (u :: vs))) := by
  rw [moreArgs]
  simp only [outcome, Except.map, bind, Except.bind]
  cases expr ts with
  | error e => rfl
  | ok p =>
    obtain ⟨x, us, h⟩ := p
    cases us with
    | nil => rfl
    | cons u vs =>
      by_cases hc : u.is .delimiter "," = true
      · simp only [hc, ↓reduceIte]
        cases moreArgs vs <;> rfl
      · by_cases hr : u.is .delimiter ")" = true
        · simp only [hc, hr, Bool.false_eq_true, ↓reduceIte]
        · simp only [hc, hr, Bool.false_eq_true, ↓reduceIte]

/-! ## Statements -/

theorem outcome_name (ts : List Token) :
    outcome (name ts) = (do
      let (t, us) ← takeOutcome Token.isName .functionName ts
      .ok (t.text, us)) := by
  cases ts with
  | nil => rfl
  | cons t us =>
    rw [name, takeOutcome]
    split <;> rfl

/-- A definition behind its word, part by part. -/
theorem outcome_definition (ts : List Token) :
    outcome (definition ts) = (do
      let (t, us) ← takeOutcome Token.isName .functionName ts
      let (_, us) ← outcome (expect .delimiter "(" us)
      let (names, us) ← outcome (params us)
      let (_, us) ← outcome (expect .operator "=" us)
      let (x, rest) ← outcome (expr us)
      .ok (.assign t.text (.lambda names x), rest)) := by
  have hname := outcome_name ts
  rw [definition]
  simp only [bind, Except.bind] at hname ⊢
  cases htake : takeOutcome Token.isName .functionName ts with
  | error e =>
    rw [htake] at hname
    rw [outcome_error_iff.mp hname]
    rfl
  | ok r =>
    rw [htake] at hname
    obtain ⟨h, hname⟩ := outcome_ok_iff.mp hname
    rw [hname]
    simp only [outcome, Except.map]
    rcases expect .delimiter "(" r.2 with e | ⟨_, us₂, h₂⟩
    · rfl
    simp only
    rcases params us₂ with e | ⟨names, us₃, h₃⟩
    · rfl
    simp only
    rcases expect .operator "=" us₃ with e | ⟨_, us₄, h₄⟩
    · rfl
    simp only
    cases expr us₄ <;> rfl

theorem outcome_exprStmt (ts : List Token) :
    outcome (exprStmt ts) = (do
      let (x, rest) ← outcome (expr ts)
      .ok (.expr x, rest)) := by
  rw [exprStmt]
  cases expr ts <;> rfl

/-- A statement, by its first token and the one behind it. -/
theorem outcome_stmt (t : Token) (us : List Token) :
    outcome (stmt (t :: us)) =
      if t.is .keyword "def" then outcome (definition us)
      else
        match us with
        | [] => outcome (exprStmt [t])
        | u :: vs =>
          if t.isName && u.is .operator "=" then do
            let (x, rest) ← outcome (expr vs)
            .ok (.assign t.text x, rest)
          else outcome (exprStmt (t :: u :: vs)) := by
  rw [stmt.eq_def]
  simp only
  split
  · cases definition us <;> rfl
  · cases us with
    | nil => rfl
    | cons u vs =>
      simp only
      split
      · cases expr vs <;> rfl
      · rfl

theorem single_eq_outcome (ts : List Token) :
    single ts = (do
      let (x, rest) ← outcome (expr (skipSeparators (closed ts)))
      match skipSeparators rest with
      | [] => .ok x
      | t :: us => if t.isEnd then .ok x else .error (unexpected .endOfExpression (t :: us))) := by
  rw [single]
  cases expr (skipSeparators (closed ts)) <;> rfl

end Parser

theorem Expr.ofTokens_eq_bind (ts : List Token) :
    Expr.ofTokens ts = (do
      let _ ← Balance.check ts
      Parser.single ts) := by
  rw [Expr.ofTokens]
  cases Balance.check ts <;> rfl

end Abacus
