import Abacus.Document.Basic
import Abacus.Number.Reading
import Abacus.Parsed

/-!
# Reading documents

The format of documents is read strictly, but with three more numbers: `NaN`, `Infinity` and
`-Infinity`. A key that an object repeats keeps its first place and has its last value. An escape of
sixteen bits may be a half of a pair without the other half, and a whole number has at most
`maxDigits` digits.
-/

namespace Abacus.Document

/-- Why a text is no document. -/
inductive TextError where
  | malformed
  | tooManyDigits (count : Nat)
deriving Repr, DecidableEq

/-- The largest number of digits of a whole number. -/
def maxDigits : Nat := 4300

/-- The text without the blanks at its start. -/
def skipBlanks (cs : List Char) : List Char :=
  cs.dropWhile fun c => c = ' ' || c = '\t' || c = '\n' || c = '\r'

theorem length_skipBlanks_le (cs : List Char) : (skipBlanks cs).length ≤ cs.length :=
  length_dropWhile_le _ _

/-! ## Texts -/

/-- The value of a hexadecimal digit of either case. -/
def hexValue? (c : Char) : Option Nat :=
  if '0' ≤ c && c ≤ '9' then some (c.toNat - '0'.toNat)
  else if 'a' ≤ c && c ≤ 'f' then some (c.toNat - 'a'.toNat + 10)
  else if 'A' ≤ c && c ≤ 'F' then some (c.toNat - 'A'.toNat + 10)
  else none

/-- Reads four hexadecimal digits. -/
def unit? : (cs : List Char) → Option (Parsed Nat cs)
  | a :: b :: c :: d :: rest =>
    match hexValue? a, hexValue? b, hexValue? c, hexValue? d with
    | some w, some x, some y, some z =>
      some ⟨((w * 16 + x) * 16 + y) * 16 + z, rest, by simp only [List.length_cons]; omega⟩
    | _, _, _, _ => none
  | _ => none

/-- The character that a letter stands for behind a backslash. -/
def letterEscape? (c : Char) : Option Char :=
  if c = '"' || c = '\\' || c = '/' then some c
  else if c = 'b' then some '\x08'
  else if c = 'f' then some '\x0c'
  else if c = 'n' then some '\n'
  else if c = 'r' then some '\r'
  else if c = 't' then some '\t'
  else none

/-- Reads the second half of a pair, which is an escape of its own. -/
def secondHalf? : (cs : List Char) → Option (Parsed Nat cs)
  | '\\' :: 'u' :: rest =>
    match unit? rest with
    | none => none
    | some ⟨n, rest₁, h⟩ =>
      if 0xDC00 ≤ n && n < 0xE000 then
        some ⟨n, rest₁, by simp only [List.length_cons]; omega⟩
      else none
  | _ => none

/-- Reads an escape behind its backslash. The halves of a pair make up one character; a half without
the other one is taken as it is. -/
def escape? : (cs : List Char) → Option (Parsed CodePoint cs)
  | [] => none
  | c :: rest =>
    if c = 'u' then
      match unit? rest with
      | none => none
      | some ⟨n, rest₁, h⟩ =>
        match if 0xD800 ≤ n && n < 0xDC00 then secondHalf? rest₁ else none with
        | some ⟨m, rest₂, h'⟩ =>
          some ⟨.char (Char.ofNat (0x10000 + (n - 0xD800) * 0x400 + (m - 0xDC00))), rest₂,
            by simp only [List.length_cons]; omega⟩
        | none => some ⟨.ofUnit n, rest₁, by simp only [List.length_cons]; omega⟩
    else
      match letterEscape? c with
      | some d => some ⟨.char d, rest, by simp⟩
      | none => none

/-- Reads a text behind its opening quotation mark. -/
def text? (cs : List Char) : Option (Parsed (List CodePoint) cs) :=
  match cs with
  | [] => none
  | c :: rest =>
    if c = '"' then some ⟨[], rest, by simp⟩
    else if c = '\\' then
      match escape? rest with
      | none => none
      | some ⟨p, rest₁, h⟩ =>
        match text? rest₁ with
        | none => none
        | some ⟨ps, rest₂, h'⟩ => some ⟨p :: ps, rest₂, by simp only [List.length_cons]; omega⟩
    else if c.toNat < 0x20 then none
    else
      match text? rest with
      | none => none
      | some ⟨ps, rest₁, h⟩ =>
        some ⟨.char c :: ps, rest₁, by simp only [List.length_cons]; omega⟩
termination_by cs.length

/-! ## Numbers -/

/-- A numeral in its parts. -/
structure Numeral where
  negative : Bool
  whole : List Char
  fraction : Option (List Char)
  exponent : Option (Bool × List Char)
deriving Repr, DecidableEq

namespace Numeral

/-- The digits before the point: a lone zero, or digits that do not start with zero. -/
def takeWhole : List Char → List Char × List Char
  | [] => ([], [])
  | c :: rest =>
    if c = '0' then ([c], rest)
    else ((c :: rest).takeWhile Char.isDigit, (c :: rest).dropWhile Char.isDigit)

/-- A point with digits behind it. -/
def takeFraction : List Char → Option (List Char) × List Char
  | '.' :: c :: rest =>
    if c.isDigit then
      (some ((c :: rest).takeWhile Char.isDigit), (c :: rest).dropWhile Char.isDigit)
    else (none, '.' :: c :: rest)
  | cs => (none, cs)

/-- The sign of an exponent and the rest. -/
def takeSign : List Char → Bool × List Char
  | '-' :: rest => (true, rest)
  | '+' :: rest => (false, rest)
  | rest => (false, rest)

/-- An exponent letter with digits behind it. -/
def takeExponent : List Char → Option (Bool × List Char) × List Char
  | [] => (none, [])
  | c :: rest =>
    let (negative, digits) := takeSign rest
    if (c = 'e' || c = 'E') && !(digits.takeWhile Char.isDigit).isEmpty then
      (some (negative, digits.takeWhile Char.isDigit), digits.dropWhile Char.isDigit)
    else (none, c :: rest)

/-- The numeral at the start of a text and the rest behind it. -/
def take (cs : List Char) : Numeral × List Char :=
  let (negative, unsigned) := match cs with
    | '-' :: rest => (true, rest)
    | cs => (false, cs)
  let (whole, rest₁) := takeWhole unsigned
  let (fraction, rest₂) := takeFraction rest₁
  let (exponent, rest₃) := takeExponent rest₂
  (⟨negative, whole, fraction, exponent⟩, rest₃)

/-- The value of a numeral: a whole number unless it has a point or an exponent. -/
def value (n : Numeral) : Except TextError Document :=
  let size := Number.ofDigits n.whole
  match n.fraction, n.exponent with
  | none, none =>
    if maxDigits < n.whole.length then .error (.tooManyDigits n.whole.length)
    else .ok (.int (if n.negative then -size else size))
  | fraction, exponent =>
    let places := fraction.getD []
    let scale : Int := match exponent with
      | none => 0
      | some (true, digits) => -(Number.ofDigits digits : Int)
      | some (false, digits) => Number.ofDigits digits
    let x := Number.ofDecimal (Number.ofDigits (n.whole ++ places)) (scale - places.length)
    .ok (.float (if n.negative then -x else x))

end Numeral

/-! ## Values -/

/-- The words that are values. -/
def words : List (List Char × Document) :=
  [("null".toList, null), ("true".toList, bool true), ("false".toList, bool false),
    ("NaN".toList, float Number.notANumber), ("Infinity".toList, float Number.infinity),
    ("-Infinity".toList, float (-Number.infinity))]

/-- Reads a word or a number. -/
def scalar (cs : List Char) : Except TextError (Parsed Document cs) :=
  match words.find? fun w => w.1.isPrefixOf cs with
  | some (w, d) =>
    if h : (cs.drop w.length).length < cs.length then .ok ⟨d, cs.drop w.length, h⟩
    else .error .malformed
  | none =>
    let (numeral, rest) := Numeral.take cs
    if numeral.whole.isEmpty then .error .malformed
    else
      match numeral.value with
      | .error e => .error e
      | .ok d =>
        if h : rest.length < cs.length then .ok ⟨d, rest, h⟩ else .error .malformed

mutual

/-- Reads a value at its first character. -/
def value (cs : List Char) : Except TextError (Parsed Document cs) :=
  match cs with
  | [] => .error .malformed
  | c :: rest =>
    if c = '"' then
      match text? rest with
      | none => .error .malformed
      | some ⟨ps, rest₁, h⟩ => .ok ⟨text ps, rest₁, by simp only [List.length_cons]; omega⟩
    else if c = '[' then
      match items rest with
      | .error e => .error e
      | .ok ⟨ds, rest₁, h⟩ => .ok ⟨list ds, rest₁, by simp only [List.length_cons]; omega⟩
    else if c = '\x7b' then
      match fields rest with
      | .error e => .error e
      | .ok ⟨fs, rest₁, h⟩ =>
        .ok ⟨object (Bindings.setEntries fs), rest₁, by simp only [List.length_cons]; omega⟩
    else scalar (c :: rest)
termination_by 3 * cs.length

/-- Reads the items of a list behind its opening bracket. -/
def items (cs : List Char) : Except TextError (Parsed (List Document) cs) :=
  have hb := length_skipBlanks_le cs
  match hs : skipBlanks cs with
  | [] => .error .malformed
  | c :: rest =>
    if c = ']' then .ok ⟨[], rest, by simp only [hs, List.length_cons] at hb; omega⟩
    else
      match moreItems (c :: rest) with
      | .error e => .error e
      | .ok ⟨ds, rest₁, h⟩ => .ok ⟨ds, rest₁, by rw [hs] at hb; omega⟩
termination_by 3 * cs.length + 2
decreasing_by rw [hs] at hb; omega

/-- Reads items from the first one on, up to and with the closing bracket. -/
def moreItems (cs : List Char) : Except TextError (Parsed (List Document) cs) :=
  match value cs with
  | .error e => .error e
  | .ok ⟨d, rest, h⟩ =>
    have hb := length_skipBlanks_le rest
    match hs : skipBlanks rest with
    | [] => .error .malformed
    | c :: rest₁ =>
      have h₁ : rest₁.length < cs.length := by
        simp only [hs, List.length_cons] at hb; omega
      if c = ']' then .ok ⟨[d], rest₁, h₁⟩
      else if c = ',' then
        have hb₁ := length_skipBlanks_le rest₁
        match moreItems (skipBlanks rest₁) with
        | .error e => .error e
        | .ok ⟨ds, rest₂, h₂⟩ => .ok ⟨d :: ds, rest₂, by omega⟩
      else .error .malformed
termination_by 3 * cs.length + 1

/-- Reads the fields of an object behind its opening bracket. -/
def fields (cs : List Char) : Except TextError (Parsed (List (List CodePoint × Document)) cs) :=
  have hb := length_skipBlanks_le cs
  match hs : skipBlanks cs with
  | [] => .error .malformed
  | c :: rest =>
    if c = '\x7d' then .ok ⟨[], rest, by simp only [hs, List.length_cons] at hb; omega⟩
    else
      match moreFields (c :: rest) with
      | .error e => .error e
      | .ok ⟨fs, rest₁, h⟩ => .ok ⟨fs, rest₁, by rw [hs] at hb; omega⟩
termination_by 3 * cs.length + 2
decreasing_by rw [hs] at hb; omega

/-- Reads fields from the first key on, up to and with the closing bracket. -/
def moreFields (cs : List Char) : Except TextError (Parsed (List (List CodePoint × Document)) cs) :=
  match field cs with
  | .error e => .error e
  | .ok ⟨f, rest, h⟩ =>
    have hb := length_skipBlanks_le rest
    match hs : skipBlanks rest with
    | [] => .error .malformed
    | c :: rest₁ =>
      have h₁ : rest₁.length < cs.length := by
        simp only [hs, List.length_cons] at hb; omega
      if c = '\x7d' then .ok ⟨[f], rest₁, h₁⟩
      else if c = ',' then
        have hb₁ := length_skipBlanks_le rest₁
        match moreFields (skipBlanks rest₁) with
        | .error e => .error e
        | .ok ⟨fs, rest₂, h₂⟩ => .ok ⟨f :: fs, rest₂, by omega⟩
      else .error .malformed
termination_by 3 * cs.length + 1

/-- Reads a key, a colon and a value. -/
def field (cs : List Char) : Except TextError (Parsed (List CodePoint × Document) cs) :=
  match cs with
  | [] => .error .malformed
  | c :: rest =>
    if c = '"' then
      match text? rest with
      | none => .error .malformed
      | some ⟨key, rest₁, h₁⟩ =>
        have hb := length_skipBlanks_le rest₁
        match hs : skipBlanks rest₁ with
        | [] => .error .malformed
        | d :: rest₂ =>
          have hb₂ := length_skipBlanks_le rest₂
          have h₂ : (skipBlanks rest₂).length < (c :: rest).length := by
            simp only [hs, List.length_cons] at *; omega
          if d = ':' then
            match value (skipBlanks rest₂) with
            | .error e => .error e
            | .ok ⟨v, rest₃, h₃⟩ => .ok ⟨(key, v), rest₃, by omega⟩
          else .error .malformed
    else .error .malformed
termination_by 3 * cs.length
decreasing_by simp only [List.length_cons] at h₂ ⊢; omega

end

/-- The document that a text writes. Only blanks may stand around it. -/
def read (s : String) : Except TextError Document :=
  match value (skipBlanks s.toList) with
  | .error e => .error e
  | .ok ⟨d, rest, _⟩ => if (skipBlanks rest).isEmpty then .ok d else .error .malformed

end Abacus.Document
