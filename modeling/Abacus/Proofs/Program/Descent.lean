import Abacus.Proofs.Program.Tape

/-!
# Recursive descent with a cursor

The parser as a set of functions that call one another and share a cursor: one function for each
level of precedence, one for each kind of operand, and loops that go on as long as the token at the
cursor says so. `Call` lists the calls, `body` says what each does by means of further calls, and
`run limit` carries a call out with at most `limit` calls nested in one another. A round of a loop
counts as a call nested in the round before.

* `Call.result`: what a call comes to by the functions of `Parser`, which know of no cursor.
* `Call.cost`: how many nested calls are enough, for a number of tokens.
* `run_carries`: with that many a call comes to its result. One lemma for each kind of call says so
  of its body, and the theorem follows by induction on the limit.
-/

namespace Abacus

open Grammar (rank)
open Abacus.Parser (outcome takeOutcome levelOutcome moreOutcome)

/-- The calls that reading makes, with the type of what they give. -/
inductive Call : Type → Type
  | expr : Call Expr
  | level (l : Level) : Call Expr
  /-- A level whose operators associate to the left. -/
  | chain (l : Level) (hl : l ≠ .power) : Call Expr
  /-- A round of the loop that reads such a level, behind `left`. -/
  | more (l : Level) (hl : l ≠ .power) (left : Expr) : Call Expr
  | unary : Call Expr
  | primary : Call Expr
  | conditional : Call Expr
  | call : Call Expr
  /-- A round of the loop that reads arguments, behind one of them. -/
  | argsBehind : Call (List Expr)
  | params : Call (List String)
  /-- A round of the loop that reads parameters, behind one of them. -/
  | paramsBehind : Call (List String)
  /-- Whether the opening parenthesis at the cursor starts the parameters of a lambda. -/
  | lookahead : Call Bool
  /-- A round of the loop that looks ahead, `i` places behind the cursor. -/
  | scan (i : Nat) : Call Bool
  | skipSeparators : Call Unit
  | stmt : Call Stmt
  | definition : Call Stmt

namespace Descent

open Reading

variable {tape : Tape}

/-- What a call does, if `self` carries out the calls that it makes. -/
def body (self : {α : Type} → Call α → Reading tape α) : {α : Type} → Call α → Reading tape α
  | _, .expr => self (.level .or)
  | _, .level l =>
    if hl : l = .power then do
      let base ← self .unary
      match ← link .power with
      | none => return base
      | some op =>
        let exponent ← self (.level .power)
        return .binary op base exponent
    else self (.chain l hl)
  | _, .chain l hl => do
    let left ← self (.level l.tighter)
    self (.more l hl left)
  | _, .more l hl left => do
    match ← link l with
    | none => return left
    | some op =>
      let right ← self (.level l.tighter)
      self (.more l hl (.binary op left right))
  | _, .unary => do
    match (← current).prefixOp? with
    | none => self .primary
    | some op =>
      advance
      let x ← self .unary
      return .unary op x
  | _, .primary => do
    let t ← current
    if t.kind = .number then
      advance
      match Number.read? t.text with
      | some x => return .number x
      | none => throw (.badNumeral t.text)
    else if t.is .keyword "if" then self .conditional
    else if t.kind = .identifier then
      let u ← peek 1
      if u.is .operator "=>" then
        advance
        advance
        let x ← self .expr
        return .lambda [t.text] x
      else if u.is .delimiter "(" then self .call
      else
        advance
        return .var t.text
    else if t.is .delimiter "(" then
      if ← self .lookahead then
        advance
        let names ← self .params
        let _ ← expect .operator "=>"
        let x ← self .expr
        return .lambda names x
      else
        advance
        let x ← self .expr
        let _ ← expect .delimiter ")"
        return x
    else fail .expression
  | _, .conditional => do
    let _ ← expect .keyword "if"
    let condition ← self .expr
    let _ ← expect .keyword "then"
    let thenBranch ← self .expr
    let _ ← expect .keyword "else"
    let elseBranch ← self .expr
    return .conditional condition thenBranch elseBranch
  | _, .call => do
    let t ← identifier .functionName
    let _ ← expect .delimiter "("
    if (← current).is .delimiter ")" then
      let _ ← expect .delimiter ")"
      return .call t.text []
    else
      let x ← self .expr
      let xs ← self .argsBehind
      return .call t.text (x :: xs)
  | _, .argsBehind => do
    if (← current).is .delimiter "," then
      advance
      let x ← self .expr
      let xs ← self .argsBehind
      return x :: xs
    else
      let _ ← expect .delimiter ")"
      return []
  | _, .params => do
    if (← current).is .delimiter ")" then
      let _ ← expect .delimiter ")"
      return []
    else
      let t ← identifier .parameterName
      let names ← self .paramsBehind
      return t.text :: names
  | _, .paramsBehind => do
    if (← current).is .delimiter "," then
      advance
      let t ← identifier .parameterName
      let names ← self .paramsBehind
      return t.text :: names
    else
      let _ ← expect .delimiter ")"
      return []
  | _, .lookahead => do
    if (← peek 1).is .delimiter ")" then return (← peek 2).is .operator "=>"
    else self (.scan 1)
  | _, .scan i => do
    let t ← peek i
    let u ← peek (i + 1)
    if t.kind ≠ .identifier then return false
    else if u.is .delimiter "," then self (.scan (i + 2))
    else if u.is .delimiter ")" then return (← peek (i + 2)).is .operator "=>"
    else return false
  | _, .skipSeparators => do
    if (← current).isSeparator then
      advance
      self .skipSeparators
    else return ()
  | _, .stmt => do
    let t ← current
    let u ← peek 1
    if t.is .keyword "def" then self .definition
    else if t.isName && u.is .operator "=" then
      advance
      advance
      let x ← self .expr
      return .assign t.text x
    else
      let x ← self .expr
      return .expr x
  | _, .definition => do
    let _ ← expect .keyword "def"
    let t ← take Token.isName .functionName
    let _ ← expect .delimiter "("
    let names ← self .params
    let _ ← expect .operator "="
    let x ← self .expr
    return .assign t.text (.lambda names x)

/-- Carries out a call with at most `limit` calls nested in one another, this one included. Where
more are needed it does not end. -/
def run : Nat → {α : Type} → Call α → Reading tape α
  | 0, _, _ => endless
  | limit + 1, _, c => body (run limit) c

end Descent

/-! ## What calls come to -/

namespace Parser

/-- What the items of a list come to behind one of them, up to and with the closing parenthesis, if
`more` reads items from the first one on. -/
def itemsBehind {β : Type} (more : List Token → Except ParseError (List β × List Token)) :
    List Token → Except ParseError (List β × List Token)
  | [] => .error (unexpected (.text ")") [])
  | t :: us =>
    if t.is .delimiter "," then more us
    else do
      let (_, rest) ← outcome (expect .delimiter ")" (t :: us))
      .ok ([], rest)

theorem startsWithArrow_eq_any (ts : List Token) :
    startsWithArrow ts = ts.head?.any (·.is .operator "=>") := by
  cases ts <;> rfl

theorem moreParamsAhead_of_kind_ne {t : Token} (ht : t.kind ≠ .identifier) (us : List Token) :
    moreParamsAhead (t :: us) = false := by
  cases us <;> simp [moreParamsAhead, ht]

/-- Arguments are an expression and what stands behind it, items or the closing parenthesis. -/
theorem outcome_moreArgs_eq (ts : List Token) :
    outcome (moreArgs ts) = (do
      let (x, us) ← outcome (expr ts)
      let (xs, rest) ← itemsBehind (fun us => outcome (moreArgs us)) us
      .ok (x :: xs, rest)) := by
  rw [outcome_moreArgs]
  simp only [bind, Except.bind]
  cases outcome (expr ts) with
  | error e => rfl
  | ok r =>
    obtain ⟨x, us⟩ := r
    simp only
    cases us with
    | nil => rfl
    | cons u vs =>
      simp only [itemsBehind, outcome_expect, bind, Except.bind]
      split
      · rfl
      · split <;> rfl

theorem outcome_moreParams_eq (ts : List Token) :
    outcome (moreParams ts) = (do
      let (t, us) ← takeOutcome (·.kind = .identifier) .parameterName ts
      let (names, rest) ← itemsBehind (fun us => outcome (moreParams us)) us
      .ok (t.text :: names, rest)) := by
  cases ts with
  | nil =>
    rw [moreParams]
    rfl
  | cons t us =>
    rw [outcome_moreParams, takeOutcome]
    simp only [decide_eq_true_eq]
    split
    · simp only [bind, Except.bind]
      cases us with
      | nil => rfl
      | cons u vs =>
        simp only [itemsBehind, outcome_expect, bind, Except.bind]
        split
        · rfl
        · split <;> rfl
    · rfl

end Parser

namespace Call

/-- What a call comes to in front of some tokens. -/
def result : {α : Type} → Call α → List Token → Except ParseError (α × List Token)
  | _, .expr, ts => outcome (Parser.expr ts)
  | _, .level l, ts | _, .chain l _, ts => Parser.levelOutcome l ts
  | _, .more l _ left, ts => Parser.moreOutcome l left ts
  | _, .unary, ts => outcome (Parser.operand ts)
  | _, .primary, ts => outcome (Parser.primary ts)
  | _, .conditional, ts => do
    let (_, ts) ← outcome (Parser.expect .keyword "if" ts)
    let (condition, ts) ← outcome (Parser.expr ts)
    let (_, ts) ← outcome (Parser.expect .keyword "then" ts)
    let (thenBranch, ts) ← outcome (Parser.expr ts)
    let (_, ts) ← outcome (Parser.expect .keyword "else" ts)
    let (elseBranch, rest) ← outcome (Parser.expr ts)
    .ok (.conditional condition thenBranch elseBranch, rest)
  | _, .call, ts => do
    let (t, ts) ← takeOutcome (·.kind = .identifier) .functionName ts
    let (_, ts) ← outcome (Parser.expect .delimiter "(" ts)
    let (xs, rest) ← outcome (Parser.args ts)
    .ok (.call t.text xs, rest)
  | _, .argsBehind, ts => Parser.itemsBehind (fun us => outcome (Parser.moreArgs us)) ts
  | _, .params, ts => outcome (Parser.params ts)
  | _, .paramsBehind, ts => Parser.itemsBehind (fun us => outcome (Parser.moreParams us)) ts
  | _, .lookahead, ts => .ok (Parser.paramsAhead ts.tail, ts)
  | _, .scan i, ts => .ok (Parser.moreParamsAhead (ts.drop i), ts)
  | _, .skipSeparators, ts => .ok ((), Parser.skipSeparators ts)
  | _, .stmt, ts => outcome (Parser.stmt ts)
  | _, .definition, ts => do
    let (_, ts) ← outcome (Parser.expect .keyword "def" ts)
    outcome (Parser.definition ts)

/-- As many nested calls as this are enough in front of `n` tokens. Without a token being read, at
most seventeen are nested in one another: an expression, two for each level but the tightest, that
level, and three for the operand that it starts with. -/
def cost : {α : Type} → Call α → Nat → Nat
  | _, .expr, n => 17 * n + 15
  | _, .level l, n => 17 * n + 2 * rank l + 2
  | _, .chain l _, n | _, .more l _ _, n => 17 * n + 2 * rank l + 1
  | _, .unary, n => 17 * n + 1
  | _, .primary, n => 17 * n
  | _, .conditional, n | _, .call, n | _, .argsBehind, n => 17 * n - 1
  | _, .params, n | _, .lookahead, n => n + 1
  | _, .paramsBehind, n | _, .skipSeparators, n => n
  | _, .scan i, n => n - i + 1
  | _, .stmt, n => 17 * n + 17
  | _, .definition, n => 17 * n + 16

end Call

namespace Descent

open Reading Tape

section Bodies

variable {tape : Tape} {self : {α : Type} → Call α → Reading tape α} {limit : Nat} {p : tape.Place}

/-- Calls that need no more nested calls than the limit come to their results. -/
def Carries (tape : Tape) (limit : Nat) (self : {α : Type} → Call α → Reading tape α) : Prop :=
  ∀ (α : Type) (c : Call α) (q : tape.Place), c.cost (ahead q).length ≤ limit →
    (self c).ComesTo q (c.result (ahead q))

/-- An expression is read by the first call, at the cost of this call. -/
theorem Carries.expr (hself : Carries tape limit self) (h : 17 * (ahead p).length + 15 ≤ limit) :
    (self .expr).ComesTo p (outcome (Parser.expr (ahead p))) :=
  hself _ .expr p h

variable (hself : Carries tape limit self)
include hself

theorem body_expr (h : Call.expr.cost (ahead p).length ≤ limit + 1) :
    (body self .expr).ComesTo p (Call.expr.result (ahead p)) := by
  have hlevel := hself _ (.level .or) p (by simp only [Call.cost, rank] at h ⊢; omega)
  rw [Call.result, Parser.levelOutcome_or] at hlevel
  exact hlevel

/-- The call of a level reads the operands and operators of this level. -/
theorem body_level (l : Level) (h : (Call.level l).cost (ahead p).length ≤ limit + 1) :
    (body self (.level l)).ComesTo p ((Call.level l).result (ahead p)) := by
  simp only [Call.cost] at h
  by_cases hl : l = .power
  · subst hl
    rw [Call.result, Parser.levelOutcome_power]
    refine (hself _ .unary p (by simp only [Call.cost]; omega)).bind fun base q hbase => ?_
    have hlt := Parser.length_lt_of_outcome hbase
    rw [length_behind q] at hlt
    rw [ahead_eq q]
    simp only
    cases hlink : (Tape.current q).linkOf? .power with
    | none =>
      rw [← ahead_eq]
      exact .link_none hlink (.pure _ _)
    | some op =>
      have ht := Token.isEnd_of_linkOf? hlink
      refine .link_some hlink ?_
      rw [← ahead_next ht] at hlt ⊢
      refine (hself _ (.level .power) _ (by simp only [Call.cost]; omega)).bind fun _ _ _ => ?_
      exact .pure _ _
  · rw [body, dif_neg hl]
    exact hself _ (.chain l hl) p (by simp only [Call.cost]; omega)

theorem body_chain {l : Level} (hl : l ≠ .power)
    (h : (Call.chain l hl).cost (ahead p).length ≤ limit + 1) :
    (body self (.chain l hl)).ComesTo p ((Call.chain l hl).result (ahead p)) := by
  have hrank := Level.rank_tighter hl
  simp only [Call.cost] at h
  rw [Call.result, Parser.levelOutcome_left hl]
  refine (hself _ (.level l.tighter) p ?_).bind fun left q hleft => ?_
  · simp only [Call.cost]; omega
  · have hlt := Parser.length_lt_of_levelOutcome hleft
    exact hself _ (.more l hl left) q (by simp only [Call.cost]; omega)

/-- The call behind an operand of a level reads on from left to right. -/
theorem body_more {l : Level} (hl : l ≠ .power) (left : Expr)
    (h : (Call.more l hl left).cost (ahead p).length ≤ limit + 1) :
    (body self (.more l hl left)).ComesTo p ((Call.more l hl left).result (ahead p)) := by
  have hrank := Level.rank_tighter hl
  simp only [Call.cost] at h
  rw [length_behind] at h
  rw [Call.result, ahead_eq]
  cases hlink : (Tape.current p).linkOf? l with
  | none =>
    rw [Parser.moreOutcome_none hlink, ← ahead_eq]
    exact .link_none hlink (.pure _ _)
  | some op =>
    have ht := Token.isEnd_of_linkOf? hlink
    rw [Parser.moreOutcome_cons hl hlink]
    refine .link_some hlink ?_
    rw [← ahead_next ht] at h ⊢
    refine (hself _ (.level l.tighter) _ ?_).bind fun right q hright => ?_
    · simp only [Call.cost]; omega
    · have hlt := Parser.length_lt_of_levelOutcome hright
      exact hself _ (.more l hl _) q (by simp only [Call.cost]; omega)

/-- The call of a unary operator reads the operators in front, from the outside. -/
theorem body_unary (h : Call.unary.cost (ahead p).length ≤ limit + 1) :
    (body self .unary).ComesTo p (Call.unary.result (ahead p)) := by
  simp only [Call.cost] at h
  rw [Call.result, ahead_eq, Parser.outcome_operand]
  refine .current ?_
  cases hop : (Tape.current p).prefixOp? with
  | none =>
    rw [← ahead_eq]
    exact hself _ .primary p (by simp only [Call.cost]; omega)
  | some op =>
    have ht := (Token.StartsOperand.of_prefixOp? hop).not_end
    refine .advance ht ?_
    rw [length_behind] at h
    rw [← ahead_next ht] at h ⊢
    refine (hself _ .unary _ (by simp only [Call.cost]; omega)).bind fun _ _ _ => ?_
    exact .pure _ _

/-- Behind the opening parenthesis of a lambda. -/
theorem comesTo_lambda (h : 17 * (ahead p).length + 15 ≤ limit) :
    (do
      let names ← self .params
      let _ ← expect .operator "=>"
      let x ← self .expr
      return .lambda names x : Reading tape Expr).ComesTo p (do
        let (names, us) ← outcome (Parser.params (ahead p))
        let (_, us) ← outcome (Parser.expect .operator "=>" us)
        let (body, rest) ← outcome (Parser.expr us)
        .ok (.lambda names body, rest)) := by
  refine (hself _ .params p (by simp only [Call.cost]; omega)).bind fun names q hnames => ?_
  have hq := Parser.length_lt_of_outcome hnames
  refine (ComesTo.expect (by decide) "=>" q).bind fun _ r harrow => ?_
  have hr := Parser.length_lt_of_outcome harrow
  refine (hself.expr (by omega)).bind fun _ _ _ => ?_
  exact .pure _ _

/-- Behind an opening parenthesis that no lambda starts with. -/
theorem comesTo_group (h : 17 * (ahead p).length + 15 ≤ limit) :
    (do
      let x ← self .expr
      let _ ← expect .delimiter ")"
      return x : Reading tape Expr).ComesTo p (do
        let (x, us) ← outcome (Parser.expr (ahead p))
        let (_, rest) ← outcome (Parser.expect .delimiter ")" us)
        .ok (x, rest)) := by
  refine (hself.expr (by omega)).bind fun x q _ => ?_
  refine (ComesTo.expect (by decide) ")" q).bind fun _ _ _ => ?_
  exact .pure _ _

/-- The call of an operand reads it by its first token. -/
theorem body_primary (h : Call.primary.cost (ahead p).length ≤ limit + 1) :
    (body self .primary).ComesTo p (Call.primary.result (ahead p)) := by
  simp only [Call.cost] at h
  rw [Call.result, ahead_eq, Parser.outcome_primary]
  rw [length_behind] at h
  refine .current ?_
  split
  · rename_i hkind
    have ht := Token.isEnd_of_kind hkind (by decide)
    -- A token that is not the end can be stepped over, and then the rest is what is ahead.
    refine .advance ht ?_
    rw [← ahead_next ht]
    cases Number.read? (Tape.current p).text with
    | some x => exact .pure _ _
    | none => exact .throw _ _
  split
  · rename_i hif
    -- The call takes the keyword that was only looked at here.
    have hcond := hself _ .conditional p (by simp only [Call.cost, length_behind p]; omega)
    rw [Call.result, ahead_eq, Parser.outcome_expect, if_pos hif] at hcond
    exact hcond
  split
  · rename_i hkind
    have ht := Token.isEnd_of_kind hkind (by decide)
    -- A name is followed by another token, the end at least.
    refine .peek ?_
    rw [← ahead_next ht, length_behind] at h
    rw [peek_one ht, behind_eq ht]
    simp only
    split
    · rename_i harrow
      have hu := Token.isEnd_of_is harrow (by decide)
      refine .advance ht (.advance hu ?_)
      rw [← ahead_next hu] at h ⊢
      exact (hself.expr (by omega)).bind fun _ _ _ => .pure _ _
    split
    · rename_i hopen
      -- The call reads the name and the parenthesis again, so that it starts where this one does.
      have hcall := hself _ .call p
        (by simp only [Call.cost, length_behind p, ← ahead_next ht, length_behind (next p)]; omega)
      rw [Call.result, ahead_eq, behind_eq ht, takeOutcome, if_pos (decide_eq_true hkind)] at hcall
      simp only [bind, Except.bind, Parser.outcome_expect, if_pos hopen] at hcall
      exact hcall
    · rw [← behind_eq ht, ← ahead_next ht]
      exact .advance ht (.pure _ _)
  split
  · rename_i hopen
    have ht := Token.isEnd_of_is hopen (by decide)
    rw [← ahead_next ht] at h ⊢
    have hlook := hself _ .lookahead p
      (by simp only [Call.cost, length_behind p, ← ahead_next ht]; omega)
    rw [Call.result, ahead_eq, List.tail_cons, ← ahead_eq, ← ahead_next ht] at hlook
    -- The lookahead leaves the cursor where it is.
    refine hlook.bind_stay ?_
    split
    · exact .advance ht (comesTo_lambda hself (by omega))
    · exact .advance ht (comesTo_group hself (by omega))
  · rw [← ahead_eq]
    exact .fail _ _

theorem body_conditional (h : Call.conditional.cost (ahead p).length ≤ limit + 1) :
    (body self .conditional).ComesTo p (Call.conditional.result (ahead p)) := by
  simp only [Call.cost] at h
  rw [Call.result]
  refine (ComesTo.expect (by decide) "if" p).bind fun _ q₁ h₁ => ?_
  have hlt₁ := Parser.length_lt_of_outcome h₁
  refine (hself.expr (by omega)).bind fun _ q₂ h₂ => ?_
  have hlt₂ := Parser.length_lt_of_outcome h₂
  refine (ComesTo.expect (by decide) "then" q₂).bind fun _ q₃ h₃ => ?_
  have hlt₃ := Parser.length_lt_of_outcome h₃
  refine (hself.expr (by omega)).bind fun _ q₄ h₄ => ?_
  have hlt₄ := Parser.length_lt_of_outcome h₄
  refine (ComesTo.expect (by decide) "else" q₄).bind fun _ q₅ h₅ => ?_
  have hlt₅ := Parser.length_lt_of_outcome h₅
  refine (hself.expr (by omega)).bind fun _ _ _ => ?_
  exact .pure _ _

theorem body_call (h : Call.call.cost (ahead p).length ≤ limit + 1) :
    (body self .call).ComesTo p (Call.call.result (ahead p)) := by
  simp only [Call.cost] at h
  rw [Call.result]
  refine (ComesTo.identifier _ p).bind fun t q₁ h₁ => ?_
  have hlt₁ := Parser.length_lt_of_takeOutcome h₁
  refine (ComesTo.expect (by decide) "(" q₁).bind fun _ q₂ h₂ => ?_
  have hlt₂ := Parser.length_lt_of_outcome h₂
  refine .current ?_
  rw [ahead_eq q₂]
  simp only [Parser.outcome_args]
  split
  · rename_i hclose
    have ht := Token.isEnd_of_is hclose (by decide)
    rw [← ahead_next ht]
    exact .take_of hclose ht (.pure _ _)
  · rw [← ahead_eq, Parser.outcome_moreArgs_eq]
    simp only [bind_assoc]
    refine (hself.expr (by omega)).bind fun x q₃ h₃ => ?_
    have hlt₃ := Parser.length_lt_of_outcome h₃
    simp only
    refine (hself _ .argsBehind q₃ (by simp only [Call.cost]; omega)).bind fun _ _ _ => ?_
    exact .pure _ _

theorem body_argsBehind (h : Call.argsBehind.cost (ahead p).length ≤ limit + 1) :
    (body self .argsBehind).ComesTo p (Call.argsBehind.result (ahead p)) := by
  simp only [Call.cost] at h
  rw [length_behind] at h
  rw [Call.result, ahead_eq, Parser.itemsBehind]
  refine .current ?_
  split
  · rename_i hcomma
    have ht := Token.isEnd_of_is hcomma (by decide)
    rw [← ahead_next ht] at h ⊢
    rw [Parser.outcome_moreArgs_eq]
    refine .advance ht ?_
    refine (hself.expr (by omega)).bind fun x q hx => ?_
    have hlt := Parser.length_lt_of_outcome hx
    refine (hself _ .argsBehind q (by simp only [Call.cost]; omega)).bind fun _ _ _ => ?_
    exact .pure _ _
  · rw [← ahead_eq]
    refine (ComesTo.expect (by decide) ")" p).bind fun _ _ _ => ?_
    exact .pure _ _

theorem body_params (h : Call.params.cost (ahead p).length ≤ limit + 1) :
    (body self .params).ComesTo p (Call.params.result (ahead p)) := by
  simp only [Call.cost] at h
  rw [Call.result, ahead_eq, Parser.outcome_params]
  refine .current ?_
  split
  · rename_i hclose
    have ht := Token.isEnd_of_is hclose (by decide)
    rw [← ahead_next ht]
    exact .take_of hclose ht (.pure _ _)
  · rw [← ahead_eq, Parser.outcome_moreParams_eq]
    refine (ComesTo.identifier _ p).bind fun t q ht => ?_
    have hlt := Parser.length_lt_of_takeOutcome ht
    refine (hself _ .paramsBehind q (by simp only [Call.cost]; omega)).bind fun _ _ _ => ?_
    exact .pure _ _

theorem body_paramsBehind (h : Call.paramsBehind.cost (ahead p).length ≤ limit + 1) :
    (body self .paramsBehind).ComesTo p (Call.paramsBehind.result (ahead p)) := by
  simp only [Call.cost] at h
  rw [length_behind] at h
  rw [Call.result, ahead_eq, Parser.itemsBehind]
  refine .current ?_
  split
  · rename_i hcomma
    have ht := Token.isEnd_of_is hcomma (by decide)
    rw [← ahead_next ht] at h ⊢
    rw [Parser.outcome_moreParams_eq]
    refine .advance ht ?_
    refine (ComesTo.identifier _ _).bind fun t q ht => ?_
    have hlt := Parser.length_lt_of_takeOutcome ht
    refine (hself _ .paramsBehind q (by simp only [Call.cost]; omega)).bind fun _ _ _ => ?_
    exact .pure _ _
  · rw [← ahead_eq]
    refine (ComesTo.expect (by decide) ")" p).bind fun _ _ _ => ?_
    exact .pure _ _

theorem body_skipSeparators (h : Call.skipSeparators.cost (ahead p).length ≤ limit + 1) :
    (body self .skipSeparators).ComesTo p (Call.skipSeparators.result (ahead p)) := by
  simp only [Call.cost] at h
  rw [length_behind] at h
  rw [Call.result, ahead_eq, Parser.skipSeparators, List.dropWhile_cons]
  refine .current ?_
  split
  · rename_i hsep
    have ht := Token.isEnd_of_separator hsep
    rw [← ahead_next ht] at h ⊢
    exact .advance ht (hself _ .skipSeparators _ (by simp only [Call.cost]; omega))
  · rw [← ahead_eq]
    exact .pure _ _

/-- The call of a statement reads a definition, an assignment or an expression. -/
theorem body_stmt (h : Call.stmt.cost (ahead p).length ≤ limit + 1) :
    (body self .stmt).ComesTo p (Call.stmt.result (ahead p)) := by
  simp only [Call.cost] at h
  -- The same reading serves for all statements that are expressions.
  have hexpr : (do
      let x ← self .expr
      return .expr x : Reading tape Stmt).ComesTo p (outcome (Parser.exprStmt (ahead p))) := by
    rw [Parser.outcome_exprStmt]
    refine (hself.expr (by omega)).bind fun _ _ _ => ?_
    exact .pure _ _
  rw [Call.result, ahead_eq, Parser.outcome_stmt]
  refine .current (.peek ?_)
  split
  · rename_i hdef
    have hdefinition := hself _ .definition p (by simp only [Call.cost]; omega)
    rw [Call.result, ahead_eq, Parser.outcome_expect, if_pos hdef] at hdefinition
    exact hdefinition
  · -- Only behind a name the next token matters, and a name is not the last token.
    by_cases hname : (Tape.current p).isName
    · have ht := Token.isEnd_of_name hname
      rw [peek_one ht, behind_eq ht]
      simp only
      split
      · rename_i hassign
        have hu := Token.isEnd_of_is (Bool.and_eq_true_iff.mp hassign).2 (by decide)
        refine .advance ht (.advance hu ?_)
        rw [length_behind, ← ahead_next ht, length_behind, ← ahead_next hu] at h
        rw [← ahead_next hu]
        refine (hself.expr (by omega)).bind fun _ _ _ => ?_
        exact .pure _ _
      · rw [← behind_eq ht, ← ahead_eq]
        exact hexpr
    · have hname : (Tape.current p).isName = false := Bool.eq_false_iff.mpr hname
      rw [ahead_eq] at hexpr
      simp only [hname, Bool.false_and, Bool.false_eq_true, ↓reduceIte]
      cases hbehind : behind p with
      | nil => rwa [hbehind] at hexpr
      | cons u vs => rwa [hbehind] at hexpr

theorem body_definition (h : Call.definition.cost (ahead p).length ≤ limit + 1) :
    (body self .definition).ComesTo p (Call.definition.result (ahead p)) := by
  simp only [Call.cost] at h
  simp only [Call.result, Parser.outcome_definition]
  refine (ComesTo.expect (by decide) "def" p).bind fun _ q₁ h₁ => ?_
  have hlt₁ := Parser.length_lt_of_outcome h₁
  refine (ComesTo.take _ (fun _ => Token.isEnd_of_name) q₁).bind fun _ q₂ h₂ => ?_
  have hlt₂ := Parser.length_lt_of_takeOutcome h₂
  refine (ComesTo.expect (by decide) "(" q₂).bind fun _ q₃ h₃ => ?_
  have hlt₃ := Parser.length_lt_of_outcome h₃
  refine (hself _ .params q₃ (by simp only [Call.cost]; omega)).bind fun _ q₄ h₄ => ?_
  have hlt₄ := Parser.length_lt_of_outcome h₄
  refine (ComesTo.expect (by decide) "=" q₄).bind fun _ q₅ h₅ => ?_
  have hlt₅ := Parser.length_lt_of_outcome h₅
  refine (hself.expr (by omega)).bind fun _ _ _ => ?_
  exact .pure _ _

/-- The scan for parameters looks ahead only, one name and one sign at a time. -/
theorem body_scan (i : Nat) (h : (Call.scan i).cost (ahead p).length ≤ limit + 1) :
    (body self (.scan i)).ComesTo p ((Call.scan i).result (ahead p)) := by
  simp only [Call.cost] at h
  rw [Call.result]
  refine .peek (.peek ?_)
  cases hdrop : (ahead p).drop i with
  | nil =>
    -- So far behind the cursor only the end of the text is seen, which is no identifier.
    rw [if_pos (mt (identifier_peek hdrop).mp Bool.false_ne_true)]
    exact .pure _ _
  | cons t us =>
    have hident : (Tape.peek p i).kind = .identifier ↔ t.kind = .identifier :=
      (identifier_peek hdrop).trans decide_eq_true_iff
    have hcomma := is_peek .delimiter "," (by decide) hdrop 1
    have hclose := is_peek .delimiter ")" (by decide) hdrop 1
    have harrow := is_peek .operator "=>" (by decide) hdrop 2
    by_cases ht : t.kind = .identifier
    · rw [if_neg (not_not_intro (hident.mpr ht)), hcomma, hclose]
      cases us with
      | nil =>
        simp only [Parser.moreParamsAhead, Bool.and_false]
        exact .pure _ _
      | cons u vs =>
        have hlen := congrArg List.length hdrop
        rw [List.length_drop, List.length_cons, List.length_cons] at hlen
        simp only [List.drop_succ_cons, List.drop_zero, List.head?_cons, Option.any_some,
          Parser.moreParamsAhead, ht, decide_true, Bool.true_and]
        split
        · -- Behind a comma the scan goes on two tokens further, where it has less to cost.
          have hscan := hself _ (.scan (i + 2)) p (by simp only [Call.cost]; omega)
          rw [Call.result, ← List.drop_drop, hdrop] at hscan
          exact hscan
        split
        · rename_i hu
          rw [hu, Bool.true_and, Parser.startsWithArrow_eq_any]
          refine .peek ?_
          rw [harrow]
          exact .pure _ _
        · rename_i hu
          rw [Bool.eq_false_iff.mpr hu, Bool.false_and]
          exact .pure _ _
    · rw [if_pos (mt hident.mp ht), Parser.moreParamsAhead_of_kind_ne ht]
      exact .pure _ _

/-- The lookahead tells what the list tells, and stays where it is. -/
theorem body_lookahead (h : Call.lookahead.cost (ahead p).length ≤ limit + 1) :
    (body self .lookahead).ComesTo p (Call.lookahead.result (ahead p)) := by
  simp only [Call.cost] at h
  have hpos := length_ahead_pos p
  have hscan := hself _ (.scan 1) p (by simp only [Call.cost]; omega)
  have hclose := is_peek (p := p) .delimiter ")" (by decide) List.drop_one 0
  have harrow := is_peek (p := p) .operator "=>" (by decide) List.drop_one 1
  rw [Call.result, List.drop_one] at hscan
  rw [Call.result]
  refine .peek ?_
  rw [hclose]
  cases htail : (ahead p).tail with
  | nil =>
    rw [htail] at hscan
    exact hscan
  | cons t us =>
    rw [htail] at harrow hscan
    simp only [List.drop_zero, List.head?_cons, Option.any_some, Parser.paramsAhead]
    split
    · rw [Parser.startsWithArrow_eq_any]
      refine .peek ?_
      rw [harrow]
      exact .pure _ _
    · exact hscan

end Bodies

/-- A call with as many nested calls as it costs comes to its result. -/
theorem run_carries (tape : Tape) (limit : Nat) : Carries tape limit (run limit) := by
  induction limit with
  | zero =>
    -- There is always a token left, so that every call costs something.
    intro α c q h
    have hpos := length_ahead_pos q
    cases c
    all_goals simp only [Call.cost] at h; omega
  | succ limit ih =>
    intro α c q h
    cases c with
    | expr => exact body_expr ih h
    | level l => exact body_level ih l h
    | chain l hl => exact body_chain ih hl h
    | more l hl left => exact body_more ih hl left h
    | unary => exact body_unary ih h
    | primary => exact body_primary ih h
    | conditional => exact body_conditional ih h
    | call => exact body_call ih h
    | argsBehind => exact body_argsBehind ih h
    | params => exact body_params ih h
    | paramsBehind => exact body_paramsBehind ih h
    | lookahead => exact body_lookahead ih h
    | scan i => exact body_scan ih i h
    | skipSeparators => exact body_skipSeparators ih h
    | stmt => exact body_stmt ih h
    | definition => exact body_definition ih h

end Descent

end Abacus
