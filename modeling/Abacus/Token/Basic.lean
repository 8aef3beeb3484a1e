import Abacus.Text.Quoted

/-!
# Tokens

A token is a run of characters of the source with its kind and the position of its first
character. The end of the text is a token of its own, without characters.
-/

namespace Abacus

/-- What a token is read as. The scanner makes no `other` tokens. -/
inductive TokenKind where
  | operator
  | identifier
  | keyword
  | blank
  | delimiter
  | newline
  | number
  | endOfText
  | other
deriving Repr, DecidableEq

namespace TokenKind

/-- The name of the kind in outlines. -/
def label : TokenKind → String
  | operator => "Op"
  | identifier => "Ident"
  | keyword => "Keyword"
  | blank => "WS"
  | delimiter => "Delim"
  | newline => "Newline"
  | number => "Number"
  | endOfText => "Eof"
  | other => "Token"

/-- All kinds. -/
def all : List TokenKind :=
  [operator, identifier, keyword, blank, delimiter, newline, number, endOfText, other]

/-- The kind with a given label. -/
def ofLabel? (s : String) : Option TokenKind := all.find? (·.label == s)

end TokenKind

/-- A token with the position of its first character, counted in characters from zero. -/
structure Token where
  kind : TokenKind
  text : String
  pos : Nat
deriving Repr, DecidableEq

namespace Token

/-- The end of a text of `pos` characters. -/
def endAt (pos : Nat) : Token := ⟨.endOfText, "", pos⟩

/-- Whether the token is of the kind and has the text. -/
def is (t : Token) (kind : TokenKind) (text : String) : Bool := t.kind = kind && t.text = text

/-- Whether the token is the end of the text. -/
def isEnd (t : Token) : Bool := t.kind = .endOfText

/-- Whether the token is a name: an identifier, or a keyword where any name may stand. -/
def isName (t : Token) : Bool := t.kind = .identifier || t.kind = .keyword

/-- Whether the token separates statements. -/
def isSeparator (t : Token) : Bool := t.kind = .newline || t.is .delimiter ";"

/-- The kind and the text of a token: what it is apart from where it stands. -/
def content (t : Token) : TokenKind × String := (t.kind, t.text)

/-- The token for people who debug. -/
def outline (t : Token) : String :=
  if t.isEnd then t.kind.label else t.kind.label ++ "(" ++ Text.quote t.text ++ ")"

/-- A list of tokens for people who debug. -/
def outlineList (ts : List Token) : String :=
  "[" ++ ", ".intercalate (ts.map outline) ++ "]"

/-- The tokens as source text, one blank between two of them. -/
def showList (ts : List Token) : String :=
  " ".intercalate ((ts.filter fun t => !t.isEnd).map text)

end Token

end Abacus
