import Abacus.Proofs.Program.Whole

/-!
# The grammar

The grammar in which the notation is documented, with one nonterminal for each level of precedence:

```
program    = separator* [statement (separator+ statement)*] separator*
statement  = "def" name "(" parameters ")" "=" expr
           | name "=" expr                             (a name other than "def")
           | expr
expr       = or
or         = and (("or" | "||") and)*
and        = equality (("and" | "&&") equality)*
equality   = comparison (("==" | "!=") comparison)*
comparison = additive (("<" | ">" | "<=" | ">=") additive)*
additive   = multiply (("+" | "-") multiply)*
multiply   = power (("*" | "/" | "%") power)*
power      = unary (("^" | "**") power)?
unary      = ("-" | "not" | "!") unary | primary
primary    = number | identifier | identifier "(" arguments ")" | "(" expr ")"
           | "if" expr "then" expr "else" expr
           | identifier "=>" expr | "(" parameters ")" "=>" expr
```

It says which token lists are programs, and is ambiguous: nothing in it tells where the body of a
lambda or the last branch of a conditional ends. `isProgram_iff` and `isSingle_iff` find the same
sentences in what tokens spell, which is not ambiguous. In one direction an operand with its
operator is put in front of a sentence of the level it belongs to (`Derives.prepend`), in the other
an operator goes into the open operand at the end of what is already spelled (`Spells.join`).
-/

namespace Abacus

/-! ## Terminals -/

namespace Level

/-- The operators of a level in source text. -/
def spellings : Level → List String
  | or => ["or", "||"]
  | and => ["and", "&&"]
  | equality => ["==", "!="]
  | comparison => ["<", ">", "<=", ">="]
  | additive => ["+", "-"]
  | multiplicative => ["*", "/", "%"]
  | power => ["^", "**"]

end Level

namespace Token

/-- Whether the token is an operator of the level. -/
def isLink (t : Token) (l : Level) : Bool :=
  (t.kind = .operator || t.kind = .keyword) && t.text ∈ l.spellings

/-- Whether the token is an operator in front of an operand. -/
def isPrefix (t : Token) : Bool :=
  t.is .operator "-" || t.is .keyword "not" || t.is .operator "!"

end Token

/-! ## Rules -/

namespace Grammar

/-- The nonterminals of expressions. -/
inductive Symbol where
  | level (l : Level)
  /-- The operators of a level, each with the operand behind it. -/
  | more (l : Level)
  | unary
  | primary
  | args
deriving DecidableEq

/-- What the operators of a level stand between. -/
def operand : Level → Symbol
  | .or => .level .and
  | .and => .level .equality
  | .equality => .level .comparison
  | .comparison => .level .additive
  | .additive => .level .multiplicative
  | .multiplicative => .level .power
  | .power => .unary

/-- An expression. -/
abbrev expr : Symbol := .level .or

/-- One or more identifiers with commas between them. -/
inductive IsNames : List Token → Prop
  | last {t : Token} (ht : t.kind = .identifier) : IsNames [t]
  | more {t c : Token} {ts : List Token} (ht : t.kind = .identifier) (hc : c.is .delimiter ",")
      (hts : IsNames ts) : IsNames (t :: c :: ts)

/-- Any number of identifiers with commas between them. -/
def IsParams (ts : List Token) : Prop := ts = [] ∨ IsNames ts

/-- The tokens are derived from the nonterminal. -/
inductive Derives : List Token → Symbol → Prop
  | level {l : Level} {ts us : List Token} (hl : l ≠ .power) (hts : Derives ts (operand l))
      (hus : Derives us (.more l)) : Derives (ts ++ us) (.level l)
  | done {l : Level} : Derives [] (.more l)
  | more {l : Level} {t : Token} {ts us : List Token} (ht : t.isLink l)
      (hts : Derives ts (operand l)) (hus : Derives us (.more l)) :
      Derives (t :: (ts ++ us)) (.more l)
  | base {ts : List Token} (hts : Derives ts .unary) : Derives ts (.level .power)
  | power {t : Token} {ts us : List Token} (hts : Derives ts .unary) (ht : t.isLink .power)
      (hus : Derives us (.level .power)) : Derives (ts ++ t :: us) (.level .power)
  | unary {t : Token} {ts : List Token} (ht : t.isPrefix) (hts : Derives ts .unary) :
      Derives (t :: ts) .unary
  | primary {ts : List Token} (hts : Derives ts .primary) : Derives ts .unary
  | number {t : Token} (ht : t.kind = .number) : Derives [t] .primary
  | name {t : Token} (ht : t.kind = .identifier) : Derives [t] .primary
  | callNone {t l r : Token} (ht : t.kind = .identifier) (hl : l.is .delimiter "(")
      (hr : r.is .delimiter ")") : Derives [t, l, r] .primary
  | call {t l r : Token} {ts : List Token} (ht : t.kind = .identifier) (hl : l.is .delimiter "(")
      (hts : Derives ts .args) (hr : r.is .delimiter ")") :
      Derives (t :: l :: (ts ++ [r])) .primary
  | group {l r : Token} {ts : List Token} (hl : l.is .delimiter "(") (hts : Derives ts expr)
      (hr : r.is .delimiter ")") : Derives (l :: (ts ++ [r])) .primary
  | conditional {i t e : Token} {ts us vs : List Token} (hi : i.is .keyword "if")
      (hts : Derives ts expr) (ht : t.is .keyword "then") (hus : Derives us expr)
      (he : e.is .keyword "else") (hvs : Derives vs expr) :
      Derives (i :: (ts ++ t :: (us ++ e :: vs))) .primary
  | arrow {t a : Token} {ts : List Token} (ht : t.kind = .identifier) (ha : a.is .operator "=>")
      (hts : Derives ts expr) : Derives (t :: a :: ts) .primary
  | lambda {l r a : Token} {ps ts : List Token} (hl : l.is .delimiter "(") (hps : IsParams ps)
      (hr : r.is .delimiter ")") (ha : a.is .operator "=>") (hts : Derives ts expr) :
      Derives (l :: (ps ++ r :: a :: ts)) .primary
  | lastArg {ts : List Token} (hts : Derives ts expr) : Derives ts .args
  | moreArgs {c : Token} {ts us : List Token} (hts : Derives ts expr) (hc : c.is .delimiter ",")
      (hus : Derives us .args) : Derives (ts ++ c :: us) .args

/-- The tokens are a statement. -/
inductive IsStmt : List Token → Prop
  | definition {d t l r e : Token} {ps ts : List Token} (hd : d.is .keyword "def") (ht : t.isName)
      (hl : l.is .delimiter "(") (hps : IsParams ps) (hr : r.is .delimiter ")")
      (he : e.is .operator "=") (hts : Derives ts expr) :
      IsStmt (d :: t :: l :: (ps ++ r :: e :: ts))
  | assign {t e : Token} {ts : List Token} (ht : t.isName) (hd : t.is .keyword "def" = false)
      (he : e.is .operator "=") (hts : Derives ts expr) : IsStmt (t :: e :: ts)
  | expr {ts : List Token} (hts : Derives ts expr) : IsStmt ts

/-- The tokens are one or more statements, with one or more separators between two of them. -/
inductive IsStmts : List Token → Prop
  | last {ts : List Token} (hts : IsStmt ts) : IsStmts ts
  | more {ts seps us : List Token} (hts : IsStmt ts) (hseps : Separators seps) (hne : seps ≠ [])
      (hus : IsStmts us) : IsStmts (ts ++ (seps ++ us))

/-- The tokens are a program. -/
inductive IsProgram : List Token → Prop
  | blank {seps : List Token} (hseps : Separators seps) : IsProgram seps
  | stmts {before ts behind : List Token} (hbefore : Separators before) (hts : IsStmts ts)
      (hbehind : Separators behind) : IsProgram (before ++ (ts ++ behind))

/-- The tokens are a single expression, with any separators around it. -/
def IsSingle (us : List Token) : Prop :=
  ∃ before ts behind, us = before ++ (ts ++ behind) ∧ Separators before ∧ Derives ts expr ∧
    Separators behind

end Grammar

/-! ## Terminals of the grammar and of the parser -/

theorem BinaryOp.mem_spellings {s : String} {op : BinaryOp} (h : BinaryOp.ofSpelling? s = some op) :
    s ∈ op.level.spellings := by
  have hs := List.find?_some h
  simp only [Bool.or_eq_true, beq_iff_eq] at hs
  cases op <;> simp_all [symbol, otherSymbol?, level, Level.spellings, eq_comm]

theorem Level.ofSpelling?_isSome {s : String} {l : Level} (h : s ∈ l.spellings) :
    (BinaryOp.ofSpelling? s).isSome := by
  have hall : ∀ s ∈ l.spellings, (BinaryOp.ofSpelling? s).isSome := by cases l <;> decide
  exact hall s h

/-- The operators between operands are those of the levels. -/
theorem Token.binaryOp?_of_isLink {t : Token} {l : Level} (h : t.isLink l) :
    ∃ op, t.binaryOp? = some op := by
  simp only [isLink, Bool.and_eq_true, decide_eq_true_eq] at h
  obtain ⟨hk, hs⟩ := h
  rw [binaryOp?, if_pos hk]
  exact Option.isSome_iff_exists.mp (Level.ofSpelling?_isSome hs)

theorem Token.isLink_of_binaryOp? {t : Token} {op : BinaryOp} (h : t.binaryOp? = some op) :
    t.isLink op.level := by
  rw [binaryOp?] at h
  split at h
  · rename_i hk
    simp [isLink, hk, BinaryOp.mem_spellings h]
  · cases h

theorem Token.isPrefix_iff {t : Token} : t.isPrefix ↔ ∃ op, t.prefixOp? = some op := by
  rw [← Option.isSome_iff_exists, prefixOp?, isPrefix]
  by_cases hm : t.is .operator "-"
  · simp [hm]
  · rw [Bool.not_eq_true] at hm
    rw [hm, Bool.false_or, if_neg Bool.false_ne_true]
    split
    · rename_i hn; simp [hn]
    · rename_i hn; simp [hn]

open Abacus.Parser (Numerals numerals_cons numerals_append)

/-! ## What is spelled is derived -/

theorem SpellsMoreParams.isNames {ts : List Token} {ps : List String} (h : SpellsMoreParams ts ps) :
    ∃ us r, ts = us ++ [r] ∧ Grammar.IsNames us ∧ r.is .delimiter ")" := by
  induction h with
  | @last t r ht hr => exact ⟨[t], r, rfl, .last ht, hr⟩
  | @more t c _ _ ht hc _ ih =>
    obtain ⟨us, r, rfl, hus, hr⟩ := ih
    exact ⟨t :: c :: us, r, rfl, .more ht hc hus, hr⟩

theorem SpellsParams.isParams {ts : List Token} {ps : List String} (h : SpellsParams ts ps) :
    ∃ us r, ts = us ++ [r] ∧ Grammar.IsParams us ∧ r.is .delimiter ")" := by
  cases h with
  | @none r hr => exact ⟨[], r, rfl, .inl rfl, hr⟩
  | some h =>
    obtain ⟨us, r, rfl, hus, hr⟩ := h.isNames
    exact ⟨us, r, rfl, .inr hus, hr⟩

namespace Grammar

/-- How many levels are tighter. -/
def rank : Level → Nat
  | .or => 6
  | .and => 5
  | .equality => 4
  | .comparison => 3
  | .additive => 2
  | .multiplicative => 1
  | .power => 0

theorem eq_of_rank {l m : Level} (h : rank l = rank m) : l = m := by
  cases l <;> cases m <;> first | rfl | cases h

/-- The operands of every level but the tightest are those of the next level. -/
theorem operand_of_ne {l : Level} (h : l ≠ .power) :
    ∃ m, operand l = .level m ∧ rank l = rank m + 1 := by
  cases l
  case power => exact absurd rfl h
  all_goals exact ⟨_, rfl, rfl⟩

theorem Derives.operand_of_unary {ts : List Token} (h : Derives ts .unary) (l : Level) :
    Derives ts (operand l) := by
  have hlevel : ∀ n l, rank l = n → Derives ts (.level l) := by
    intro n
    induction n with
    | zero => intro l hl; rw [eq_of_rank (m := .power) hl]; exact .base h
    | succ n ih =>
      intro l hl
      have hne : l ≠ .power := by rintro rfl; cases hl
      obtain ⟨m, hm, hr⟩ := operand_of_ne hne
      rw [← List.append_nil ts]
      exact .level hne (hm ▸ ih m (by omega)) .done
  by_cases hl : l = .power
  · rw [hl]; exact h
  · obtain ⟨m, hm, -⟩ := operand_of_ne hl
    rw [hm]
    exact hlevel (rank m) m rfl

/-- An operand and an operator of at least the tightness of a level make a longer sentence of it. -/
theorem Derives.prepend {ts us : List Token} {t : Token} {l m : Level} (hts : Derives ts .unary)
    (ht : t.isLink m) (hm : rank m ≤ rank l) (hus : Derives us (.level l)) :
    Derives (ts ++ t :: us) (.level l) := by
  cases hus with
  | @level _ us₁ us₂ hl hus₁ hus₂ =>
    by_cases hml : m = l
    · subst hml
      rw [show ts ++ t :: (us₁ ++ us₂) = ts ++ (t :: (us₁ ++ us₂)) by simp]
      exact .level hl (hts.operand_of_unary m) (.more ht hus₁ hus₂)
    · obtain ⟨l', hl', hr⟩ := operand_of_ne hl
      have hlt : rank m ≠ rank l := fun h => hml (eq_of_rank h)
      rw [hl'] at hus₁
      have hus₁' := Derives.prepend hts ht (l := l') (by omega) hus₁
      rw [show ts ++ t :: (us₁ ++ us₂) = (ts ++ t :: us₁) ++ us₂ by simp]
      exact .level hl (hl' ▸ hus₁') hus₂
  | base hus =>
    rw [eq_of_rank (m := .power) (Nat.le_zero.mp hm)] at ht
    exact .power hts ht (.base hus)
  | power hus hu hvs =>
    rw [eq_of_rank (m := .power) (Nat.le_zero.mp hm)] at ht
    exact .power hts ht (.power hus hu hvs)
termination_by rank l

theorem rank_le_or (l : Level) : rank l ≤ rank .or := by cases l <;> decide

/-- A unary sentence is an expression. -/
theorem Derives.expr_of_unary {ts : List Token} (h : Derives ts .unary) : Derives ts expr := by
  rw [← List.append_nil ts]
  exact .level (by decide) (h.operand_of_unary .or) .done

/-- What the grammar says of the tokens that spell a phrase. -/
def DerivesPhrase (ts : List Token) : Phrase → Prop
  | .expr _ => Derives ts expr
  | .operand _ _ => Derives ts .unary
  | .links _ => ∀ us, Derives us .unary → Derives (us ++ ts) expr
  | .args _ => Derives ts .args

end Grammar

open Grammar in
theorem Spells.derives {ts : List Token} {φ : Phrase} (h : Spells ts φ) : DerivesPhrase ts φ := by
  induction h with
  | number ht => exact .primary (.number ht)
  | var ht => exact .primary (.name ht)
  | unary ht _ ih => exact .unary (Token.isPrefix_iff.mpr ⟨_, ht⟩) ih
  | callNone ht hl hr => exact .primary (.callNone ht hl hr)
  | call ht hl _ hr ih => exact .primary (.call ht hl ih hr)
  | group hl _ hr ih => exact .primary (.group hl ih hr)
  | conditional hi _ ht _ he _ ihx ihy ihz => exact .primary (.conditional hi ihx ht ihy he ihz)
  | arrow ht ha _ ih => exact .primary (.arrow ht ha ih)
  | lambda hl hps ha _ ih =>
    obtain ⟨ps, r, rfl, hps, hr⟩ := hps.isParams
    rw [List.append_assoc]
    exact .primary (.lambda hl hps hr ha ih)
  | nil =>
    intro us hus
    rw [List.append_nil]
    exact hus.expr_of_unary
  | cons ht _ _ _ ihx ihls =>
    intro us hus
    exact hus.prepend (Token.isLink_of_binaryOp? ht) (rank_le_or _) (ihls _ ihx)
  | expr _ _ _ ihx ihls => exact ihls _ ihx
  | lastArg _ ih => exact .lastArg ih
  | moreArgs _ hc _ ihx ihxs => exact .moreArgs ihx hc ihxs

/-! ## What is derived is spelled -/

theorem Grammar.IsNames.spells {us : List Token} {r : Token} (h : Grammar.IsNames us)
    (hr : r.is .delimiter ")") : ∃ ps, SpellsMoreParams (us ++ [r]) ps := by
  induction h with
  | last ht => exact ⟨_, .last ht hr⟩
  | more ht hc _ ih =>
    obtain ⟨ps, hps⟩ := ih
    exact ⟨_, .more ht hc hps⟩

theorem Grammar.IsParams.spells {us : List Token} {r : Token} (h : Grammar.IsParams us)
    (hr : r.is .delimiter ")") : ∃ ps, SpellsParams (us ++ [r]) ps := by
  rcases h with rfl | h
  · exact ⟨[], .none hr⟩
  · obtain ⟨ps, hps⟩ := h.spells hr
    exact ⟨ps, .some hps⟩

/-- The phrase goes on with an operator and an expression. -/
def GoesOn (ts vs : List Token) : Phrase → Prop
  | .expr _ => ∃ x, Spells (ts ++ vs) (.expr x)
  | .operand _ o => o = true → ∃ x, Spells (ts ++ vs) (.operand x true)
  | .links _ => ∃ ls, Spells (ts ++ vs) (.links ls)
  | .args _ => True

theorem Spells.goesOn {ts us : List Token} {φ : Phrase} {t : Token} {op : BinaryOp} {y : Expr}
    (h : Spells ts φ) (ht : t.binaryOp? = some op) (hy : Spells us (.expr y)) :
    GoesOn ts (t :: us) φ := by
  -- Only an open phrase ends in an expression that can take the operator in, and the rule that made
  -- it open is the last one applied; the others have no case to show.
  induction h with
  | number | var | callNone | call | group => exact fun h => by cases h
  | unary ht' _ ih =>
    intro ho
    obtain ⟨x, hx⟩ := ih ho
    exact ⟨_, .unary ht' hx⟩
  | @conditional i t' e ts₁ ts₂ ts₃ x y z hi hx ht' hy' he _ _ _ ih =>
    intro _
    obtain ⟨z', hz'⟩ := ih
    rw [show i :: (ts₁ ++ t' :: (ts₂ ++ e :: ts₃)) ++ t :: us =
      i :: (ts₁ ++ t' :: (ts₂ ++ e :: (ts₃ ++ t :: us))) by simp]
    exact ⟨_, .conditional hi hx ht' hy' he hz'⟩
  | arrow ht' ha _ ih =>
    intro _
    obtain ⟨x', hx'⟩ := ih
    exact ⟨_, .arrow ht' ha hx'⟩
  | @lambda l a ps ts names x hl hps ha _ ih =>
    intro _
    obtain ⟨x', hx'⟩ := ih
    rw [show l :: (ps ++ a :: ts) ++ t :: us = l :: (ps ++ a :: (ts ++ t :: us)) by simp]
    exact ⟨_, .lambda hl hps ha hx'⟩
  | nil =>
    cases hy with
    | expr hx hls ho => exact ⟨_, .cons ht hx hls ho⟩
  | @cons t' _ ts₁ ts₂ x o ls ht' hx hls ho ihx ihls =>
    cases o with
    | true =>
      -- The chain ended in an open operand, which takes in the operator.
      obtain ⟨x', hx'⟩ := ihx rfl
      rw [GoesOn, ho rfl, show t' :: (ts₁ ++ []) ++ t :: us = t' :: (ts₁ ++ t :: us ++ []) by simp]
      exact ⟨_, .cons ht' hx' .nil fun _ => rfl⟩
    -- A closed operand leaves the operator to the links behind it.
    | false =>
      obtain ⟨ls', hls'⟩ := ihls
      rw [GoesOn, show t' :: (ts₁ ++ ts₂) ++ t :: us = t' :: (ts₁ ++ (ts₂ ++ t :: us)) by simp]
      exact ⟨_, .cons ht' hx hls' fun h => by cases h⟩
  | @expr ts₁ ts₂ x o ls hx hls ho ihx ihls =>
    cases o with
    -- As for a link: an open first operand is the whole chain so far.
    | true =>
      obtain ⟨x', hx'⟩ := ihx rfl
      rw [GoesOn, ho rfl, show ts₁ ++ [] ++ t :: us = ts₁ ++ t :: us ++ [] by simp]
      exact ⟨_, .expr hx' .nil fun _ => rfl⟩
    | false =>
      obtain ⟨ls', hls'⟩ := ihls
      rw [GoesOn, show ts₁ ++ ts₂ ++ t :: us = ts₁ ++ (ts₂ ++ t :: us) by simp]
      exact ⟨_, .expr hx hls' fun h => by cases h⟩
  | lastArg | moreArgs => trivial

/-- Two expressions with an operator between them are an expression. -/
theorem Spells.join {ts us : List Token} {t : Token} {op : BinaryOp} {x y : Expr}
    (hx : Spells ts (.expr x)) (ht : t.binaryOp? = some op) (hy : Spells us (.expr y)) :
    ∃ z, Spells (ts ++ t :: us) (.expr z) :=
  hx.goesOn ht hy

namespace Grammar

/-- What the tokens of a nonterminal spell. -/
def SpellsSymbol (ts : List Token) : Symbol → Prop
  | .level _ => ∃ x, Spells ts (.expr x)
  | .more _ => ∀ us x, Spells us (.expr x) → ∃ z, Spells (us ++ ts) (.expr z)
  | .unary | .primary => ∃ x o, Spells ts (.operand x o)
  | .args => ∃ xs, Spells ts (.args xs)

theorem SpellsSymbol.expr_of_operand {ts : List Token} {l : Level}
    (h : SpellsSymbol ts (operand l)) : ∃ x, Spells ts (.expr x) := by
  by_cases hl : l = .power
  · subst hl
    obtain ⟨x, o, hx⟩ := h
    exact ⟨x, hx.expr_of_operand⟩
  · obtain ⟨m, hm, -⟩ := operand_of_ne hl
    rw [hm] at h
    exact h

theorem Derives.spells {ts : List Token} {s : Symbol} (h : Derives ts s) (hn : Numerals ts) :
    SpellsSymbol ts s := by
  -- Every rule of the grammar is a rule of `Spells` but the levels, which are joined to one chain:
  -- what `more` promises is about any chain already read in front of it.
  induction h with
  | level hl _ _ ihx ihmore =>
    simp only [numerals_append] at hn
    obtain ⟨x, hx⟩ := (ihx hn.1).expr_of_operand
    exact ihmore hn.2 _ x hx
  | done => exact fun us x hx => ⟨x, by rwa [List.append_nil]⟩
  | @more l t ts vs ht _ _ ihx ihmore =>
    simp only [numerals_cons, numerals_append] at hn
    intro us x hx
    obtain ⟨op, hop⟩ := Token.binaryOp?_of_isLink ht
    obtain ⟨y, hy⟩ := (ihx hn.2.1).expr_of_operand
    obtain ⟨z, hz⟩ := hx.join hop hy
    rw [show us ++ t :: (ts ++ vs) = us ++ t :: ts ++ vs by simp]
    exact ihmore hn.2.2 _ z hz
  | base _ ih =>
    obtain ⟨x, o, hx⟩ := ih hn
    exact ⟨x, hx.expr_of_operand⟩
  | power _ ht _ ihx ihy =>
    simp only [numerals_cons, numerals_append] at hn
    obtain ⟨x, o, hx⟩ := ihx hn.1
    obtain ⟨y, hy⟩ := ihy hn.2.2
    obtain ⟨op, hop⟩ := Token.binaryOp?_of_isLink ht
    exact hx.expr_of_operand.join hop hy
  | unary ht _ ih =>
    simp only [numerals_cons] at hn
    obtain ⟨x, o, hx⟩ := ih hn.2
    obtain ⟨op, hop⟩ := Token.isPrefix_iff.mp ht
    exact ⟨_, o, .unary hop hx⟩
  | primary _ ih => exact ih hn
  | number ht =>
    simp only [numerals_cons] at hn
    obtain ⟨v, hv⟩ := Option.isSome_iff_exists.mp (hn.1 ht)
    exact ⟨_, false, .number ht hv⟩
  | name ht => exact ⟨_, false, .var ht⟩
  | callNone ht hl hr => exact ⟨_, false, .callNone ht hl hr⟩
  | call ht hl _ hr ih =>
    simp only [numerals_cons, numerals_append] at hn
    obtain ⟨xs, hxs⟩ := ih hn.2.2.1
    exact ⟨_, false, .call ht hl hxs hr⟩
  | group hl _ hr ih =>
    simp only [numerals_cons, numerals_append] at hn
    obtain ⟨x, hx⟩ := ih hn.2.1
    exact ⟨_, false, .group hl hx hr⟩
  | conditional hi _ ht _ he _ ihx ihy ihz =>
    simp only [numerals_cons, numerals_append] at hn
    obtain ⟨x, hx⟩ := ihx hn.2.1
    obtain ⟨y, hy⟩ := ihy hn.2.2.2.1
    obtain ⟨z, hz⟩ := ihz hn.2.2.2.2.2
    exact ⟨_, true, .conditional hi hx ht hy he hz⟩
  | arrow ht ha _ ih =>
    simp only [numerals_cons] at hn
    obtain ⟨x, hx⟩ := ih hn.2.2
    exact ⟨_, true, .arrow ht ha hx⟩
  | @lambda l r a ps ts hl hps hr ha _ ih =>
    simp only [numerals_cons, numerals_append] at hn
    obtain ⟨x, hx⟩ := ih hn.2.2.2.2
    obtain ⟨names, hnames⟩ := hps.spells hr
    rw [show l :: (ps ++ r :: a :: ts) = l :: (ps ++ [r] ++ a :: ts) by simp]
    exact ⟨_, true, .lambda hl hnames ha hx⟩
  | lastArg _ ih =>
    obtain ⟨x, hx⟩ := ih hn
    exact ⟨_, .lastArg hx⟩
  | moreArgs _ hc _ ihx ihxs =>
    simp only [numerals_cons, numerals_append] at hn
    obtain ⟨x, hx⟩ := ihx hn.1
    obtain ⟨xs, hxs⟩ := ihxs hn.2.2
    exact ⟨_, .moreArgs hx hc hxs⟩

end Grammar

/-! ## Statements and programs -/

open Grammar in
theorem SpellsStmt.isStmt {ts : List Token} {s : Stmt} (h : SpellsStmt ts s) : IsStmt ts := by
  cases h with
  | @definition d t l e ps ts names x hd ht hl hps he hx =>
    obtain ⟨ps, r, rfl, hps, hr⟩ := hps.isParams
    rw [show d :: t :: l :: (ps ++ [r] ++ e :: ts) = d :: t :: l :: (ps ++ r :: e :: ts) by simp]
    exact .definition hd ht hl hps hr he hx.derives
  | assign ht hd he hx => exact .assign ht hd he hx.derives
  | expr hx => exact .expr hx.derives

open Grammar in
theorem SpellsStmts.isStmts {ts : List Token} {ss : List Stmt} (h : SpellsStmts ts ss) :
    IsStmts ts := by
  induction h with
  | last hs => exact .last hs.isStmt
  | @more t ts seps us _ _ hs ht hseps _ ih =>
    rw [show ts ++ t :: (seps ++ us) = ts ++ ((t :: seps) ++ us) by simp]
    exact .more hs.isStmt (List.forall_mem_cons.mpr ⟨ht, hseps⟩) (by simp) ih

namespace Grammar

theorem IsStmt.spells {ts : List Token} (h : IsStmt ts) (hn : Numerals ts) :
    ∃ s, SpellsStmt ts s := by
  cases h with
  | @definition d t l r e ps ts hd ht hl hps hr he hts =>
    simp only [numerals_cons, numerals_append] at hn
    obtain ⟨names, hnames⟩ := hps.spells hr
    obtain ⟨x, hx⟩ := hts.spells hn.2.2.2.2.2.2
    rw [show d :: t :: l :: (ps ++ r :: e :: ts) = d :: t :: l :: (ps ++ [r] ++ e :: ts) by simp]
    exact ⟨_, .definition hd ht hl hnames he hx⟩
  | assign ht hd he hts =>
    simp only [numerals_cons] at hn
    obtain ⟨x, hx⟩ := hts.spells hn.2.2
    exact ⟨_, .assign ht hd he hx⟩
  | expr hts =>
    obtain ⟨x, hx⟩ := hts.spells hn
    exact ⟨_, .expr hx⟩

theorem IsStmts.spells {ts : List Token} (h : IsStmts ts) (hn : Numerals ts) :
    ∃ ss, SpellsStmts ts ss := by
  induction h with
  | last hts =>
    obtain ⟨s, hs⟩ := hts.spells hn
    exact ⟨_, .last hs⟩
  | @more ts seps us hts hseps hne _ ih =>
    simp only [numerals_append] at hn
    obtain ⟨s, hs⟩ := hts.spells hn.1
    obtain ⟨ss, hss⟩ := ih hn.2.2
    cases seps with
    | nil => exact absurd rfl hne
    | cons t seps =>
      obtain ⟨ht, hseps⟩ := List.forall_mem_cons.mp hseps
      exact ⟨_, .more hs ht hseps hss⟩

/-- The programs of the grammar are what spells a program. -/
theorem isProgram_iff {ts : List Token} (hn : Numerals ts) :
    IsProgram ts ↔ ∃ p, SpellsProgram ts p := by
  constructor
  · intro h
    cases h with
    | blank hseps => exact ⟨_, .blank hseps⟩
    | stmts hbefore hts hbehind =>
      simp only [numerals_append] at hn
      obtain ⟨ss, hss⟩ := hts.spells hn.2.1
      exact ⟨_, .stmts hbefore hss hbehind⟩
  · rintro ⟨p, h⟩
    cases h with
    | blank hseps => exact .blank hseps
    | stmts hbefore hss hbehind => exact .stmts hbefore hss.isStmts hbehind

/-- The single expressions of the grammar are what spells one. -/
theorem isSingle_iff {ts : List Token} (hn : Numerals ts) :
    IsSingle ts ↔ ∃ x, SpellsSingle ts x := by
  constructor
  · rintro ⟨before, us, behind, rfl, hbefore, hus, hbehind⟩
    simp only [numerals_append] at hn
    obtain ⟨x, hx⟩ := hus.spells hn.2.1
    exact ⟨x, before, us, behind, rfl, hbefore, hx, hbehind⟩
  · rintro ⟨x, before, us, behind, rfl, hbefore, hx, hbehind⟩
    exact ⟨before, us, behind, rfl, hbefore, hx.derives, hbehind⟩

end Grammar

end Abacus
