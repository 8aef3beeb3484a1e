import Abacus.Program.Parser

/-!
# Source text

A source is read in two steps, into tokens and then into a program or a single expression. The trace
of the reading shows how far both steps came.
-/

namespace Abacus

/-- The tokens of a source in the notation of Abacus. -/
def sourceTokens (source : String) : Except SourceError (List Token) :=
  (Lexicon.standard.tokens source).mapError .scan

/-- The program that a source is. -/
def Program.ofSource (source : String) : Except SourceError Program := do
  let ts ← sourceTokens source
  (Program.ofTokens ts).mapError .parse

/-- The single expression that a source is. -/
def Expr.ofSource (source : String) : Except SourceError Expr := do
  let ts ← sourceTokens source
  (Expr.ofTokens ts).mapError .parse

/-- The trace of reading a token list as a program. -/
def Program.readTrace (ts : List Token) : List String :=
  match Balance.check ts with
  | .error _ => []
  | .ok _ => Parser.traceStatements (Parser.statements ts).read

/-- The trace of reading a token list as an expression. -/
def Expr.readTrace (ts : List Token) : List String :=
  match Expr.ofTokens ts with
  | .error _ => []
  | .ok x => Parser.traceExpr x

/-- The trace of reading a source, given the trace of reading its tokens. -/
def sourceTrace (readTrace : List Token → List String) (source : String) : List String :=
  let scan := Lexicon.standard.scan source
  scan.trace source ++
    match Lexicon.standard.tokens source with
    | .error _ => []
    | .ok ts => readTrace ts

end Abacus
