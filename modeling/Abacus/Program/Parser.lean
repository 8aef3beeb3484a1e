import Abacus.Number.Reading
import Abacus.Parsed
import Abacus.Program.Chain
import Abacus.Program.Outline
import Abacus.Token.Balance

/-!
# Reading programs

Programs and expressions are read from a list of tokens, from left to right, without going back. An
expression is a chain of operands; what an operand is shows in its first tokens:

```
program   = separator* [statement (separator+ statement)*] separator*
statement = "def" name "(" parameters ")" "=" expression
          | name "=" expression
          | expression
expression = operand (binary-operator operand)*
operand    = prefix-operator operand
           | number
           | "if" expression "then" expression "else" expression
           | identifier "=>" expression
           | "(" parameters ")" "=>" expression
           | identifier "(" arguments ")"
           | identifier
           | "(" expression ")"
```

A lambda and a conditional reach as far to the right as they can. What each function reads is
shorter than what it was given, which is why reading ends.
-/

namespace Abacus

/-! ## Tokens as operators -/

namespace Token

/-- The binary operator that a token stands for. Operator tokens and keywords count alike. -/
def binaryOp? (t : Token) : Option BinaryOp :=
  if t.kind = .operator || t.kind = .keyword then BinaryOp.ofSpelling? t.text else none

/-- The operator that a token stands for in front of an operand. -/
def prefixOp? (t : Token) : Option UnaryOp :=
  if t.is .operator "-" then some .neg
  else if t.is .keyword "not" || t.is .operator "!" then some .not
  else none

end Token

namespace Parser

/-- The error of finding `ts` where something else is expected. -/
def unexpected (expected : Expectation) : List Token → ParseError
  | [] => .unexpectedEnd expected none
  | t :: _ =>
    if t.isEnd then .unexpectedEnd expected (some t.pos)
    else .unexpectedToken t.text t.pos (some expected)

/-- Reads a token of a given kind and text. -/
def expect (kind : TokenKind) (text : String) :
    (ts : List Token) → Except ParseError (Parsed Token ts)
  | [] => .error (unexpected (.text text) [])
  | t :: ts =>
    if t.is kind text then .ok ⟨t, ts, by simp⟩ else .error (unexpected (.text text) (t :: ts))

/-- Reads any name. -/
def name : (ts : List Token) → Except ParseError (Parsed String ts)
  | [] => .error (unexpected .functionName [])
  | t :: ts =>
    if t.isName then .ok ⟨t.text, ts, by simp⟩ else .error (unexpected .functionName (t :: ts))

/-! ## Parameters -/

/-- Reads parameter names from the first one on, up to and with the closing parenthesis. -/
def moreParams : (ts : List Token) → Except ParseError (Parsed (List String) ts)
  | [] => .error (unexpected .parameterName [])
  | t :: ts =>
    if t.kind = .identifier then
      match ts with
      | [] => .error (unexpected (.text ")") [])
      | u :: us =>
        if u.is .delimiter "," then
          match moreParams us with
          | .error e => .error e
          | .ok ⟨params, rest, h⟩ =>
            .ok ⟨t.text :: params, rest, by simp only [List.length_cons]; omega⟩
        else if u.is .delimiter ")" then
          .ok ⟨[t.text], us, by simp only [List.length_cons]; omega⟩
        else .error (unexpected (.text ")") (u :: us))
    else .error (unexpected .parameterName (t :: ts))

/-- Reads the parameter names behind an opening parenthesis, up to and with the closing one. -/
def params (ts : List Token) : Except ParseError (Parsed (List String) ts) :=
  match ts with
  | [] => moreParams []
  | t :: us => if t.is .delimiter ")" then .ok ⟨[], us, by simp⟩ else moreParams (t :: us)

/-- Whether `ts` starts with an arrow. -/
def startsWithArrow : List Token → Bool
  | [] => false
  | t :: _ => t.is .operator "=>"

/-- Whether parameter names, a closing parenthesis and an arrow come next. -/
def moreParamsAhead : List Token → Bool
  | [] => false
  | t :: ts =>
    t.kind = .identifier &&
      match ts with
      | [] => false
      | u :: us =>
        if u.is .delimiter "," then moreParamsAhead us
        else u.is .delimiter ")" && startsWithArrow us

/-- Whether the opening parenthesis before `ts` starts the parameters of a lambda. -/
def paramsAhead : List Token → Bool
  | [] => false
  | t :: ts => if t.is .delimiter ")" then startsWithArrow ts else moreParamsAhead (t :: ts)

/-! ## Expressions -/

mutual

/-- Reads an expression. -/
def expr (ts : List Token) : Except ParseError (Parsed Expr ts) :=
  match operand ts with
  | .error e => .error e
  | .ok ⟨first, rest, h⟩ =>
    match links rest with
    | .error e => .error e
    | .ok ⟨(ls, rest'), h'⟩ => .ok ⟨Chain.toExpr first ls, rest', by simp only at h'; omega⟩
termination_by 5 * ts.length + 2

/-- Reads binary operators and operands as long as there are any. -/
def links (ts : List Token) :
    Except ParseError { r : Links × List Token // r.2.length ≤ ts.length } :=
  match ts with
  | [] => .ok ⟨([], []), by simp⟩
  | t :: us =>
    match t.binaryOp? with
    | none => .ok ⟨([], t :: us), by simp⟩
    | some op =>
      match operand us with
      | .error e => .error e
      | .ok ⟨x, rest, h⟩ =>
        match links rest with
        | .error e => .error e
        | .ok ⟨(ls, rest'), h'⟩ =>
          .ok ⟨((op, x) :: ls, rest'), by simp only [List.length_cons] at *; omega⟩
termination_by 5 * ts.length

/-- Reads an operand with the operators in front of it. -/
def operand (ts : List Token) : Except ParseError (Parsed Expr ts) :=
  match ts with
  | [] => .error (unexpected .expression [])
  | t :: us =>
    match t.prefixOp? with
    | some op =>
      match operand us with
      | .error e => .error e
      | .ok ⟨x, rest, h⟩ => .ok ⟨.unary op x, rest, length_lt_cons t h⟩
    | none => primary (t :: us)
termination_by 5 * ts.length + 1

/-- Reads an operand that no operator stands in front of. -/
def primary (ts : List Token) : Except ParseError (Parsed Expr ts) :=
  match ts with
  | [] => .error (unexpected .expression [])
  | t :: us =>
    if t.kind = .number then
      match Number.read? t.text with
      | some x => .ok ⟨.number x, us, by simp⟩
      | none => .error (.badNumeral t.text)
    else if t.is .keyword "if" then
      match expr us with
      | .error e => .error e
      | .ok ⟨condition, us₁, h₁⟩ =>
        match expect .keyword "then" us₁ with
        | .error e => .error e
        | .ok ⟨_, us₂, h₂⟩ =>
          match expr us₂ with
          | .error e => .error e
          | .ok ⟨thenBranch, us₃, h₃⟩ =>
            match expect .keyword "else" us₃ with
            | .error e => .error e
            | .ok ⟨_, us₄, h₄⟩ =>
              match expr us₄ with
              | .error e => .error e
              | .ok ⟨elseBranch, us₅, h₅⟩ =>
                .ok ⟨.conditional condition thenBranch elseBranch, us₅, length_lt_cons t
                  (Nat.lt_trans h₅ (Nat.lt_trans h₄ (Nat.lt_trans h₃ (Nat.lt_trans h₂ h₁))))⟩
    else if t.kind = .identifier then
      match us with
      | [] => .ok ⟨.var t.text, [], by simp⟩
      | u :: vs =>
        if u.is .operator "=>" then
          match expr vs with
          | .error e => .error e
          | .ok ⟨body, rest, h⟩ =>
            .ok ⟨.lambda [t.text] body, rest, length_lt_cons t (length_lt_cons u h)⟩
        else if u.is .delimiter "(" then
          match args vs with
          | .error e => .error e
          | .ok ⟨xs, rest, h⟩ =>
            .ok ⟨.call t.text xs, rest, length_lt_cons t (length_lt_cons u h)⟩
        else .ok ⟨.var t.text, u :: vs, by simp⟩
    else if t.is .delimiter "(" then
      if paramsAhead us then
        match params us with
        | .error e => .error e
        | .ok ⟨ps, us₁, h₁⟩ =>
          match expect .operator "=>" us₁ with
          | .error e => .error e
          | .ok ⟨_, us₂, h₂⟩ =>
            match expr us₂ with
            | .error e => .error e
            | .ok ⟨body, rest, h⟩ =>
              .ok ⟨.lambda ps body, rest,
                length_lt_cons t (Nat.lt_trans h (Nat.lt_trans h₂ h₁))⟩
      else
        match expr us with
        | .error e => .error e
        | .ok ⟨x, us₁, h₁⟩ =>
          match expect .delimiter ")" us₁ with
          | .error e => .error e
          | .ok ⟨_, rest, h⟩ => .ok ⟨x, rest, length_lt_cons t (Nat.lt_trans h h₁)⟩
    else .error (unexpected .expression (t :: us))
termination_by 5 * ts.length

/-- Reads the arguments behind an opening parenthesis, up to and with the closing one. -/
def args (ts : List Token) : Except ParseError (Parsed (List Expr) ts) :=
  match ts with
  | [] => moreArgs []
  | t :: us => if t.is .delimiter ")" then .ok ⟨[], us, by simp⟩ else moreArgs (t :: us)
termination_by 5 * ts.length + 4

/-- Reads arguments from the first one on, up to and with the closing parenthesis. -/
def moreArgs (ts : List Token) : Except ParseError (Parsed (List Expr) ts) :=
  match expr ts with
  | .error e => .error e
  | .ok ⟨x, [], _⟩ => .error (unexpected (.text ")") [])
  | .ok ⟨x, u :: us, h⟩ =>
    have : us.length < ts.length := by simp only [List.length_cons] at h; omega
    if u.is .delimiter "," then
      match moreArgs us with
      | .error e => .error e
      | .ok ⟨xs, rest, h'⟩ => .ok ⟨x :: xs, rest, by omega⟩
    else if u.is .delimiter ")" then .ok ⟨[x], us, this⟩
    else .error (unexpected (.text ")") (u :: us))
termination_by 5 * ts.length + 3

end

/-! ## Statements -/

/-- Reads a definition behind its keyword. -/
def definition (ts : List Token) : Except ParseError (Parsed Stmt ts) :=
  match name ts with
  | .error e => .error e
  | .ok ⟨target, us₁, h₁⟩ =>
    match expect .delimiter "(" us₁ with
    | .error e => .error e
    | .ok ⟨_, us₂, h₂⟩ =>
      match params us₂ with
      | .error e => .error e
      | .ok ⟨ps, us₃, h₃⟩ =>
        match expect .operator "=" us₃ with
        | .error e => .error e
        | .ok ⟨_, us₄, h₄⟩ =>
          match expr us₄ with
          | .error e => .error e
          | .ok ⟨body, rest, h⟩ => .ok ⟨.assign target (.lambda ps body), rest, by omega⟩

/-- Reads an expression as a statement. -/
def exprStmt (ts : List Token) : Except ParseError (Parsed Stmt ts) :=
  match expr ts with
  | .error e => .error e
  | .ok ⟨x, rest, h⟩ => .ok ⟨.expr x, rest, h⟩

/-- Reads a statement. -/
def stmt (ts : List Token) : Except ParseError (Parsed Stmt ts) :=
  match ts with
  | [] => exprStmt []
  | t :: us =>
    if t.is .keyword "def" then
      match definition us with
      | .error e => .error e
      | .ok ⟨s, rest, h⟩ => .ok ⟨s, rest, length_lt_cons t h⟩
    else
      match us with
      | [] => exprStmt [t]
      | u :: vs =>
        if t.isName && u.is .operator "=" then
          match expr vs with
          | .error e => .error e
          | .ok ⟨x, rest, h⟩ =>
            .ok ⟨.assign t.text x, rest, length_lt_cons t (length_lt_cons u h)⟩
        else exprStmt (t :: u :: vs)

/-- Drops the separators at the start. -/
def skipSeparators (ts : List Token) : List Token := ts.dropWhile Token.isSeparator

theorem length_skipSeparators_le (ts : List Token) : (skipSeparators ts).length ≤ ts.length :=
  length_dropWhile_le _ _

/-- The statements read from the start of a token list, and the error that stops the reading. -/
structure Statements where
  read : List Stmt
  failure : Option ParseError
deriving Repr, DecidableEq

/-- Reads statements up to the end of the text or the first error. -/
def statementsFrom (ts : List Token) : Statements :=
  match ts with
  | [] => ⟨[], none⟩
  | t :: us =>
    if t.isEnd then ⟨[], none⟩
    else
      match stmt (t :: us) with
      | .error e => ⟨[], some e⟩
      | .ok ⟨s, [], _⟩ => ⟨[s], none⟩
      | .ok ⟨s, v :: vs, _⟩ =>
        if v.isEnd then ⟨[s], none⟩
        else if v.isSeparator then
          let more := statementsFrom (skipSeparators vs)
          ⟨s :: more.read, more.failure⟩
        else ⟨[s], some (unexpected .separator (v :: vs))⟩
termination_by ts.length
decreasing_by
  have := length_skipSeparators_le vs
  simp only [List.length_cons] at *
  omega

/-! ## Whole token lists -/

/-- The tokens with the end of the text as their last one. -/
def closed (ts : List Token) : List Token :=
  match ts.getLast? with
  | none => [Token.endAt 0]
  | some t => if t.isEnd then ts else ts ++ [Token.endAt (t.pos + t.text.length)]

/-- The statements of a token list. -/
def statements (ts : List Token) : Statements := statementsFrom (skipSeparators (closed ts))

/-- Reads a token list as a program, whether or not its parentheses are balanced. -/
def program (ts : List Token) : Except ParseError Program :=
  match statements ts with
  | ⟨read, none⟩ => .ok ⟨read⟩
  | ⟨_, some e⟩ => .error e

/-- Reads a token list as a single expression, whether or not its parentheses are balanced. -/
def single (ts : List Token) : Except ParseError Expr :=
  match expr (skipSeparators (closed ts)) with
  | .error e => .error e
  | .ok ⟨x, rest, _⟩ =>
    match skipSeparators rest with
    | [] => .ok x
    | t :: us => if t.isEnd then .ok x else .error (unexpected .endOfExpression (t :: us))

end Parser

/-! ## Balanced token lists -/

/-- The program that a token list is. -/
def Program.ofTokens (ts : List Token) : Except ParseError Program :=
  match Balance.check ts with
  | .error e => .error e
  | .ok _ => Parser.program ts

/-- The expression that a token list is. -/
def Expr.ofTokens (ts : List Token) : Except ParseError Expr :=
  match Balance.check ts with
  | .error e => .error e
  | .ok _ => Parser.single ts

/-! ## The trace of reading -/

namespace Parser

/-- One line for each statement, as soon as it is read. -/
def traceStatements (read : List Stmt) : List String :=
  read.mapIdx fun i s => "[PARSE] Statement " ++ toString i ++ ": " ++ s.outline

/-- The line for an expression that was read to its end. -/
def traceExpr (x : Expr) : List String := ["[PARSE] Expression: " ++ x.outline]

end Parser

end Abacus
