import Abacus.Token.Basic

/-!
# Scanning

A scan cuts the source into pieces from the left. At each place the kinds are tried in a fixed
order (blanks and comments, a newline, a number, an operator, a word, a delimiter), and the piece is
the longest one of the first kind that fits. The pieces hold all characters of the source; `tokens`
then drops the blanks, and those newlines that stand inside parentheses and so separate nothing.
-/

namespace Abacus

/-- The words of a notation: which words are keywords, and what its operators and delimiters are.
Their order does not matter. -/
structure Lexicon where
  keywords : List String
  operators : List String
  delimiters : List String
deriving Repr, DecidableEq

/-- Why a scan stops before the end of the text. -/
inductive ScanError where
  /-- No piece starts with this character. -/
  | unexpectedChar (char : Char) (pos : Nat)
  /-- Only an empty delimiter fits, and it takes the scan no further. -/
  | stalled (pos : Nat)
deriving Repr, DecidableEq

/-- The pieces up to the end of the text or the first failure. -/
structure Scan where
  pieces : List Token
  failure : Option ScanError
deriving Repr, DecidableEq

namespace Lexicon

/-- The notation of Abacus. -/
def standard : Lexicon where
  keywords := ["if", "then", "else", "def", "and", "or", "not"]
  operators := ["+", "-", "*", "/", "%", "^", "**", "==", "!=", "<", ">", "<=", ">=", "=", "=>",
    "&&", "||", "!"]
  delimiters := ["(", ")", ",", ";"]

/-! ## The pieces of each kind at the start of a text -/

/-- A character that may stand between tokens; a newline is a piece of its own. -/
def isBlank (c : Char) : Bool :=
  c = ' ' || c = '\t' || c = '\r' || c = '\x0c' || c = '\x0b'

/-- A character that a word may start with. -/
def isWordStart (c : Char) : Bool := c.isAlpha || c = '_'

/-- A character that a word may go on with. -/
def isWordPart (c : Char) : Bool := c.isAlphanum || c = '_'

/-- The blanks and comments at the start. A comment runs from `#` to the end of its line. -/
def blankRun (inComment : Bool) : List Char → List Char
  | [] => []
  | c :: cs =>
    if c = '\n' then []
    else if inComment || c = '#' then c :: blankRun true cs
    else if isBlank c then c :: blankRun false cs
    else []

/-- A newline at the start. -/
def newlineRun : List Char → List Char
  | '\n' :: _ => ['\n']
  | _ => []

/-- A number at the start: digits, then maybe a point and more digits. -/
def numberRun (cs : List Char) : List Char :=
  let whole := cs.takeWhile Char.isDigit
  if whole.isEmpty then []
  else match cs.dropWhile Char.isDigit with
    | '.' :: rest => whole ++ '.' :: rest.takeWhile Char.isDigit
    | _ => whole

/-- A word at the start. -/
def wordRun : List Char → List Char
  | [] => []
  | c :: cs => if isWordStart c then c :: cs.takeWhile isWordPart else []

/-- The longest of the words that the text starts with. -/
def longest? (cs : List Char) : List String → Option (List Char)
  | [] => none
  | w :: ws =>
    match longest? cs ws with
    | none => if w.toList.isPrefixOf cs then some w.toList else none
    | some v => if w.toList.isPrefixOf cs && v.length < w.length then some w.toList else some v

/-! ## One piece after the other -/

/-- A run of characters as a piece of a kind, if there is any character. -/
def piece? (kind : TokenKind) : List Char → Option (TokenKind × List Char)
  | [] => none
  | run => some (kind, run)

/-- The kind of a word. -/
def wordKind (l : Lexicon) (word : List Char) : TokenKind :=
  if String.ofList word ∈ l.keywords then .keyword else .identifier

/-- The kind and the characters of the piece at the start of the text. -/
def next? (l : Lexicon) (cs : List Char) : Option (TokenKind × List Char) :=
  piece? .blank (blankRun false cs)
  <|> piece? .newline (newlineRun cs)
  <|> piece? .number (numberRun cs)
  <|> piece? .operator ((longest? cs l.operators).getD [])
  <|> piece? (l.wordKind (wordRun cs)) (wordRun cs)
  <|> (longest? cs l.delimiters).map fun run => (.delimiter, run)

/-- Cuts a text whose first character stands at `pos` into pieces. -/
def scanFrom (l : Lexicon) (pos : Nat) (cs : List Char) : Scan :=
  match cs with
  | [] => ⟨[], none⟩
  | c :: rest =>
    match l.next? (c :: rest) with
    | none => ⟨[], some (.unexpectedChar c pos)⟩
    | some (_, []) => ⟨[], some (.stalled pos)⟩
    | some (kind, d :: ds) =>
      let scan := l.scanFrom (pos + ds.length + 1) (rest.drop ds.length)
      ⟨⟨kind, String.ofList (d :: ds), pos⟩ :: scan.pieces, scan.failure⟩
termination_by cs.length
decreasing_by simp only [List.length_drop, List.length_cons]; omega

/-- Cuts a source into pieces. -/
def scan (l : Lexicon) (source : String) : Scan := l.scanFrom 0 source.toList

/-- What is left of the pieces at a depth of parentheses: no blanks, and newlines only outside of
all parentheses. A closing parenthesis without a partner leaves the depth at zero. -/
def dropLayout (depth : Nat) : List Token → List Token
  | [] => []
  | t :: ts =>
    if t.kind = .blank then dropLayout depth ts
    else if t.kind = .newline then
      if depth = 0 then t :: dropLayout depth ts else dropLayout depth ts
    else if t.is .delimiter "(" then t :: dropLayout (depth + 1) ts
    else if t.is .delimiter ")" then t :: dropLayout (depth - 1) ts
    else t :: dropLayout depth ts

/-- The tokens of a source, the end of the text last. -/
def tokens (l : Lexicon) (source : String) : Except ScanError (List Token) :=
  match l.scan source with
  | ⟨pieces, none⟩ => .ok (dropLayout 0 pieces ++ [Token.endAt source.length])
  | ⟨_, some e⟩ => .error e

end Lexicon

/-! ## The trace of a scan -/

namespace Scan

/-- Line breaks as escapes, so that a line of the trace stays one line. -/
def showBreaks (s : String) : String :=
  String.ofList <| s.toList.flatMap fun c =>
    if c = '\n' then ['\\', 'n'] else if c = '\r' then ['\\', 'r'] else [c]

/-- The line for a place of the scan: its character and at most ten characters from there. -/
def placeLine (pos : Nat) (cs : List Char) : String :=
  showBreaks <| "[DEBUG] pos=" ++ toString pos ++ ": char='" ++ String.ofList (cs.take 1) ++
    "' remaining='" ++ String.ofList (cs.take 10) ++ "...'"

/-- The line for a piece. -/
def pieceLine (t : Token) : String :=
  "[DEBUG]   matched " ++ t.outline ++ "@" ++ toString (t.pos + t.text.length)

/-- Two lines for each piece, and one for the place where the scan fails. -/
def traceFrom (cs : List Char) (pos : Nat) (failed : Bool) : List Token → List String
  | [] => if failed then [placeLine pos cs] else []
  | t :: ts =>
    placeLine t.pos cs :: pieceLine t ::
      traceFrom (cs.drop t.text.length) (t.pos + t.text.length) failed ts

/-- The trace of the scan of a source. -/
def trace (source : String) (s : Scan) : List String :=
  traceFrom source.toList 0 s.failure.isSome s.pieces

end Scan

end Abacus
