import Abacus.Program.Parser

/-!
# What tokens spell

`Spells ts φ`: the tokens `ts`, all of them and in this order, write the phrase `φ`. The relation
does not read from left to right and knows nothing of what follows: it says which runs of tokens
stand for which tree. A lambda or a conditional without parentheses around it is an *open* operand.
It takes in whatever operators follow, so that in a chain only the last operand is open; with that
one condition a run of tokens spells one tree.

* `Spells.startsLike`: how a phrase starts, which is what a reader looks at before it decides.
-/

namespace Abacus

/-! ## Tokens -/

namespace Token

variable {t : Token} {kind kind' : TokenKind} {s s' : String}

theorem is_iff : t.is kind s = true ↔ t.kind = kind ∧ t.text = s := by
  simp [is]

theorem is_of_kind_ne (h : t.kind ≠ kind) : t.is kind s = false := by
  simp [is, h]

/-- A token of one text has no other text. -/
theorem is_of_text_ne (h : t.is kind' s' = true) (hne : s' ≠ s) : t.is kind s = false := by
  simp [is, (is_iff.mp h).2, hne]

/-- A token of one kind is of no other kind. -/
theorem is_of_is_ne (h : t.is kind' s' = true) (hne : kind' ≠ kind) : t.is kind s = false :=
  is_of_kind_ne (by rw [(is_iff.mp h).1]; exact hne)

/-- A name is an identifier or a keyword. -/
theorem kind_of_isName (h : t.isName) : t.kind = .identifier ∨ t.kind = .keyword := by
  simpa [isName] using h

theorem kind_of_isSeparator (h : t.isSeparator) : t.kind = .newline ∨ t.is .delimiter ";" := by
  simpa [isSeparator] using h

theorem kind_of_isEnd (h : t.isEnd) : t.kind = .endOfText := by
  simpa [isEnd] using h

/-- Only operators and the word `not` stand in front of an operand. -/
theorem prefixOp?_eq_none (ho : t.kind ≠ .operator) (hk : t.is .keyword "not" = false) :
    t.prefixOp? = none := by
  simp [prefixOp?, is_of_kind_ne ho, hk]

/-- The tokens that stand in front of an operand: a sign, or the word for negation. -/
theorem kind_of_prefixOp? {op : UnaryOp} (h : t.prefixOp? = some op) :
    t.kind = .operator ∧ (t.text = "-" ∨ t.text = "!") ∨ t.is .keyword "not" = true := by
  rw [prefixOp?] at h
  split at h
  · rename_i hm
    exact .inl ⟨(is_iff.mp hm).1, .inl (is_iff.mp hm).2⟩
  · split at h
    · rename_i hn
      simp only [Bool.or_eq_true] at hn
      rcases hn with hn | hn
      · exact .inr hn
      · exact .inl ⟨(is_iff.mp hn).1, .inr (is_iff.mp hn).2⟩
    · cases h

/-- An operator between operands is a sign or a word. -/
theorem kind_of_binaryOp? {op : BinaryOp} (h : t.binaryOp? = some op) :
    t.kind = .operator ∨ t.kind = .keyword := by
  rw [binaryOp?] at h
  split at h
  · rename_i hk; simpa using hk
  · cases h

/-- A token whose text spells no operator stands between no operands. -/
theorem binaryOp?_of_is (h : t.is kind s = true) (hs : BinaryOp.ofSpelling? s = none) :
    t.binaryOp? = none := by
  rw [binaryOp?, (is_iff.mp h).2, hs, ite_self]

theorem binaryOp?_of_kind (ho : t.kind ≠ .operator) (hk : t.kind ≠ .keyword) :
    t.binaryOp? = none := by
  simp [binaryOp?, ho, hk]

/-- An operator has no spelling of another kind of token. -/
theorem is_of_binaryOp? {op : BinaryOp} (h : t.binaryOp? = some op)
    (hs : BinaryOp.ofSpelling? s = none) : t.is kind s = false := by
  apply Bool.eq_false_iff.mpr
  intro ht
  rw [binaryOp?_of_is ht hs] at h
  cases h

/-- An operand may start with the token. -/
def StartsOperand (t : Token) : Prop :=
  match t.kind with
  | .number | .identifier => True
  | .operator => t.text = "-" ∨ t.text = "!"
  | .keyword => t.text = "not" ∨ t.text = "if"
  | .delimiter => t.text = "("
  | _ => False

/-- Behind the token no expression goes on, and none starts with it. -/
def BreaksOff (t : Token) : Prop :=
  t.is .delimiter "," ∨ t.is .delimiter ")" ∨ t.is .operator "="

/-- What stands in front of an operand starts one. -/
theorem StartsOperand.of_prefixOp? {op : UnaryOp} (h : t.prefixOp? = some op) :
    t.StartsOperand := by
  rcases kind_of_prefixOp? h with ⟨hk, ht⟩ | ht
  · simpa [StartsOperand, hk] using ht
  · simp [StartsOperand, is_iff.mp ht]

/-- With what starts an operand no list and no assignment is broken off. -/
theorem StartsOperand.not_breaksOff (h : t.StartsOperand) : ¬ t.BreaksOff := by
  cases hk : t.kind <;> rw [StartsOperand, hk] at h <;> simp_all [BreaksOff, is]
  rintro ht; simp [ht] at h

theorem StartsOperand.is_close (h : t.StartsOperand) : t.is .delimiter ")" = false := by
  refine Bool.eq_false_iff.mpr fun ht => h.not_breaksOff (.inr (.inl ht))

theorem StartsOperand.is_def (h : t.StartsOperand) : t.is .keyword "def" = false := by
  cases hk : t.kind <;> rw [StartsOperand, hk] at h <;> simp_all [is]
  rintro ht; simp [ht] at h

theorem StartsOperand.not_separator (h : t.StartsOperand) : t.isSeparator = false := by
  cases hk : t.kind <;> rw [StartsOperand, hk] at h <;> simp_all [isSeparator, is]

theorem StartsOperand.not_end (h : t.StartsOperand) : t.isEnd = false := by
  cases hk : t.kind <;> rw [StartsOperand, hk] at h <;> simp_all [isEnd]

/-- A token with another text than a comma, a closing parenthesis or an equals sign breaks nothing
off. -/
theorem not_breaksOff_of_is (h : t.is kind s = true) (h₁ : s ≠ ",") (h₂ : s ≠ ")") (h₃ : s ≠ "=") :
    ¬ t.BreaksOff := by
  simp [BreaksOff, is_of_text_ne h h₁, is_of_text_ne h h₂, is_of_text_ne h h₃]

theorem not_breaksOff_of_binaryOp? {op : BinaryOp} (h : t.binaryOp? = some op) :
    ¬ t.BreaksOff := by
  simp [BreaksOff, is_of_binaryOp? h (show BinaryOp.ofSpelling? "," = none by decide),
    is_of_binaryOp? h (show BinaryOp.ofSpelling? ")" = none by decide),
    is_of_binaryOp? h (show BinaryOp.ofSpelling? "=" = none by decide)]

end Token

/-! ## Phrases -/

/-- Parameter names from the first one on, up to and with the closing parenthesis. -/
inductive SpellsMoreParams : List Token → List String → Prop
  | last {t r : Token} (ht : t.kind = .identifier) (hr : r.is .delimiter ")") :
      SpellsMoreParams [t, r] [t.text]
  | more {t c : Token} {ts : List Token} {ps : List String} (ht : t.kind = .identifier)
      (hc : c.is .delimiter ",") (hts : SpellsMoreParams ts ps) :
      SpellsMoreParams (t :: c :: ts) (t.text :: ps)

/-- Any number of parameter names, up to and with the closing parenthesis. -/
inductive SpellsParams : List Token → List String → Prop
  | none {r : Token} (hr : r.is .delimiter ")") : SpellsParams [r] []
  | some {ts : List Token} {ps : List String} (hts : SpellsMoreParams ts ps) : SpellsParams ts ps

/-- What a run of tokens can stand for inside an expression. -/
inductive Phrase where
  | expr (x : Expr)
  /-- One operand with the operators in front of it; an open one ends in a lambda or a conditional
  that no parenthesis closes. -/
  | operand (x : Expr) (isOpen : Bool)
  /-- The operators and operands behind a first operand. -/
  | links (ls : Links)
  /-- One or more arguments. -/
  | args (xs : List Expr)

/-- The tokens write the phrase. -/
inductive Spells : List Token → Phrase → Prop
  | number {t : Token} {v : Float} (ht : t.kind = .number) (hv : Number.read? t.text = some v) :
      Spells [t] (.operand (.number v) false)
  | var {t : Token} (ht : t.kind = .identifier) : Spells [t] (.operand (.var t.text) false)
  | unary {t : Token} {op : UnaryOp} {ts : List Token} {x : Expr} {o : Bool}
      (ht : t.prefixOp? = some op) (hx : Spells ts (.operand x o)) :
      Spells (t :: ts) (.operand (.unary op x) o)
  | callNone {t l r : Token} (ht : t.kind = .identifier) (hl : l.is .delimiter "(")
      (hr : r.is .delimiter ")") : Spells [t, l, r] (.operand (.call t.text []) false)
  | call {t l r : Token} {ts : List Token} {xs : List Expr} (ht : t.kind = .identifier)
      (hl : l.is .delimiter "(") (hxs : Spells ts (.args xs)) (hr : r.is .delimiter ")") :
      Spells (t :: l :: (ts ++ [r])) (.operand (.call t.text xs) false)
  | group {l r : Token} {ts : List Token} {x : Expr} (hl : l.is .delimiter "(")
      (hx : Spells ts (.expr x)) (hr : r.is .delimiter ")") :
      Spells (l :: (ts ++ [r])) (.operand x false)
  | conditional {i t e : Token} {ts us vs : List Token} {x y z : Expr} (hi : i.is .keyword "if")
      (hx : Spells ts (.expr x)) (ht : t.is .keyword "then") (hy : Spells us (.expr y))
      (he : e.is .keyword "else") (hz : Spells vs (.expr z)) :
      Spells (i :: (ts ++ t :: (us ++ e :: vs))) (.operand (.conditional x y z) true)
  | arrow {t a : Token} {ts : List Token} {x : Expr} (ht : t.kind = .identifier)
      (ha : a.is .operator "=>") (hx : Spells ts (.expr x)) :
      Spells (t :: a :: ts) (.operand (.lambda [t.text] x) true)
  | lambda {l a : Token} {ps ts : List Token} {names : List String} {x : Expr}
      (hl : l.is .delimiter "(") (hps : SpellsParams ps names) (ha : a.is .operator "=>")
      (hx : Spells ts (.expr x)) :
      Spells (l :: (ps ++ a :: ts)) (.operand (.lambda names x) true)
  | nil : Spells [] (.links [])
  | cons {t : Token} {op : BinaryOp} {ts us : List Token} {x : Expr} {o : Bool} {ls : Links}
      (ht : t.binaryOp? = some op) (hx : Spells ts (.operand x o)) (hls : Spells us (.links ls))
      (ho : o = true → us = []) : Spells (t :: (ts ++ us)) (.links ((op, x) :: ls))
  | expr {ts us : List Token} {x : Expr} {o : Bool} {ls : Links}
      (hx : Spells ts (.operand x o)) (hls : Spells us (.links ls)) (ho : o = true → us = []) :
      Spells (ts ++ us) (.expr (Chain.toExpr x ls))
  | lastArg {ts : List Token} {x : Expr} (hx : Spells ts (.expr x)) : Spells ts (.args [x])
  | moreArgs {c : Token} {ts us : List Token} {x : Expr} {xs : List Expr}
      (hx : Spells ts (.expr x)) (hc : c.is .delimiter ",") (hxs : Spells us (.args xs)) :
      Spells (ts ++ c :: us) (.args (x :: xs))

/-- An operand is an expression. -/
theorem Spells.expr_of_operand {ts : List Token} {x : Expr} {o : Bool}
    (h : Spells ts (.operand x o)) : Spells ts (.expr x) := by
  have := Spells.expr h .nil fun _ => rfl
  rwa [List.append_nil] at this

/-- The tokens write any number of arguments and the closing parenthesis behind them. -/
def SpellsArgs (ts : List Token) (xs : List Expr) : Prop :=
  ∃ us r, ts = us ++ [r] ∧ r.is .delimiter ")" ∧ (us = [] ∧ xs = [] ∨ Spells us (.args xs))

/-- A name, an opening parenthesis and arguments spell a call. -/
theorem Spells.call_of_args {t l : Token} {ts : List Token} {xs : List Expr}
    (ht : t.kind = .identifier) (hl : l.is .delimiter "(") (hts : SpellsArgs ts xs) :
    Spells (t :: l :: ts) (.operand (.call t.text xs) false) := by
  obtain ⟨us, r, rfl, hr, ⟨rfl, rfl⟩ | hus⟩ := hts
  · exact .callNone ht hl hr
  · exact .call ht hl hus hr

/-! ## How phrases start -/

/-- How an expression starts: with a token that starts an operand, and what stands behind a name at
the start does not break the expression off. -/
def Starts (ts : List Token) : Prop :=
  ∃ t us, ts = t :: us ∧ t.StartsOperand ∧ (t.isName → ∀ u ∈ us.head?, ¬ u.BreaksOff)

/-- A comma or the closing parenthesis stands behind a first parameter. -/
theorem SpellsMoreParams.second {ts : List Token} {ps : List String} (h : SpellsMoreParams ts ps) :
    ∃ t u us, ts = t :: u :: us ∧ t.kind = .identifier ∧ u.BreaksOff := by
  cases h with
  | last ht hr => exact ⟨_, _, _, rfl, ht, .inr (.inl hr)⟩
  | more ht hc => exact ⟨_, _, _, rfl, ht, .inl hc⟩

/-- How a phrase starts. -/
def StartsLike (ts : List Token) : Phrase → Prop
  | .links _ => ∀ t ∈ ts.head?, t.binaryOp?.isSome
  | .args _ => ∃ t us, ts = t :: us ∧ t.StartsOperand
  | _ => Starts ts

theorem starts_cons {t u : Token} {us : List Token} (ht : t.StartsOperand) (hu : ¬ u.BreaksOff) :
    Starts (t :: u :: us) :=
  ⟨t, u :: us, rfl, ht, fun _ v hv => by cases hv; exact hu⟩

/-- A start stays one when something follows that does not break the expression off. -/
theorem Starts.append {ts us : List Token} (h : Starts ts) (hus : ∀ u ∈ us.head?, ¬ u.BreaksOff) :
    Starts (ts ++ us) := by
  obtain ⟨t, ts, rfl, ht, hname⟩ := h
  refine ⟨t, ts ++ us, rfl, ht, fun hn => ?_⟩
  cases ts with
  | nil => exact hus
  | cons v vs => exact hname hn

theorem Starts.cons {t : Token} {ts : List Token} (ht : t.StartsOperand) (h : Starts ts) :
    Starts (t :: ts) := by
  obtain ⟨u, us, rfl, hu, -⟩ := h
  exact starts_cons ht hu.not_breaksOff

/-- A phrase starts as its kind requires. -/
theorem Spells.startsLike {ts : List Token} {φ : Phrase} (h : Spells ts φ) : StartsLike ts φ := by
  induction h with
  | number ht => exact ⟨_, _, rfl, by simp [Token.StartsOperand, ht], by simp⟩
  | var ht => exact ⟨_, _, rfl, by simp [Token.StartsOperand, ht], by simp⟩
  | unary ht hx ih => exact .cons (.of_prefixOp? ht) ih
  -- A name is followed by its own parenthesis here, and so never by what would make it a parameter.
  | callNone ht hl hr | call ht hl hr =>
    exact starts_cons (by simp [Token.StartsOperand, ht])
      (Token.not_breaksOff_of_is hl (by decide) (by decide) (by decide))
  | group hl | lambda hl =>
    refine ⟨_, _, rfl, by simp [Token.StartsOperand, Token.is_iff.mp hl], fun hn => ?_⟩
    simp [Token.isName, (Token.is_iff.mp hl).1] at hn
  | conditional hi hx _ _ _ _ ih =>
    obtain ⟨u, us, rfl, hu, -⟩ := ih
    exact starts_cons (by simp [Token.StartsOperand, Token.is_iff.mp hi]) hu.not_breaksOff
  | arrow ht ha =>
    exact starts_cons (by simp [Token.StartsOperand, ht])
      (Token.not_breaksOff_of_is ha (by decide) (by decide) (by decide))
  | nil => exact fun t ht => by cases ht
  | cons ht => exact fun t' ht' => by cases ht'; simp [ht]
  | expr hx hls ho ihx ihls =>
    -- An expression starts as its first operand does; an operator may follow where that is one
    -- token.
    apply ihx.append
    intro u hu
    obtain ⟨op, hop⟩ := Option.isSome_iff_exists.mp (ihls u hu)
    exact Token.not_breaksOff_of_binaryOp? hop
  | lastArg hx ih =>
    obtain ⟨t, us, rfl, ht, -⟩ := ih
    exact ⟨t, us, rfl, ht⟩
  | moreArgs hx hc hxs ih =>
    obtain ⟨t, us, rfl, ht, -⟩ := ih
    exact ⟨t, _, rfl, ht⟩

/-! ## The end of the text -/

/-- None of the tokens is the end of the text. -/
def NoEnd (ts : List Token) : Prop := ∀ t ∈ ts, t.isEnd = false

instance : DecidablePred NoEnd := fun ts => List.decidableBAll (fun t : Token => t.isEnd = false) ts

@[simp] theorem noEnd_nil : NoEnd [] := fun t ht => by cases ht

@[simp] theorem noEnd_cons {t : Token} {ts : List Token} :
    NoEnd (t :: ts) ↔ t.isEnd = false ∧ NoEnd ts := List.forall_mem_cons

@[simp] theorem noEnd_append {ts us : List Token} : NoEnd (ts ++ us) ↔ NoEnd ts ∧ NoEnd us :=
  List.forall_mem_append

theorem Token.isEnd_of_kind {t : Token} {kind : TokenKind} (h : t.kind = kind)
    (hk : kind ≠ .endOfText) : t.isEnd = false := by
  simp [Token.isEnd, h, hk]

theorem Token.isEnd_of_is {t : Token} {kind : TokenKind} {s : String} (h : t.is kind s = true)
    (hk : kind ≠ .endOfText) : t.isEnd = false :=
  Token.isEnd_of_kind (Token.is_iff.mp h).1 hk

theorem Token.isEnd_of_separator {t : Token} (h : t.isSeparator) : t.isEnd = false := by
  rcases Token.kind_of_isSeparator h with hk | hk
  · exact Token.isEnd_of_kind hk (by decide)
  · exact Token.isEnd_of_is hk (by decide)

/-! ## What ends statements -/

/-- Whether the token ends a statement. -/
def Token.isBreak (t : Token) : Bool := t.isEnd || t.isSeparator

/-- None of the tokens ends a statement. -/
def NoBreak (ts : List Token) : Prop := ∀ t ∈ ts, t.isBreak = false

instance : DecidablePred NoBreak := fun ts =>
  List.decidableBAll (fun t : Token => t.isBreak = false) ts

@[simp] theorem noBreak_nil : NoBreak [] := fun t ht => by cases ht

@[simp] theorem noBreak_cons {t : Token} {ts : List Token} :
    NoBreak (t :: ts) ↔ t.isBreak = false ∧ NoBreak ts := List.forall_mem_cons

@[simp] theorem noBreak_append {ts us : List Token} :
    NoBreak (ts ++ us) ↔ NoBreak ts ∧ NoBreak us := List.forall_mem_append

/-- A list without breaks has no end of the tokens in it. -/
theorem NoBreak.noEnd {ts : List Token} (h : NoBreak ts) : NoEnd ts :=
  fun t ht => (Bool.or_eq_false_iff.mp (h t ht)).1

theorem NoBreak.not_separator {ts : List Token} (h : NoBreak ts) :
    ∀ t ∈ ts, t.isSeparator = false :=
  fun t ht => (Bool.or_eq_false_iff.mp (h t ht)).2

theorem Token.isBreak_of_is {t : Token} {kind : TokenKind} {s : String} (h : t.is kind s = true)
    (he : kind ≠ .endOfText) (hn : kind ≠ .newline) (hs : s ≠ ";") : t.isBreak = false := by
  simp [isBreak, isEnd, isSeparator, is, is_iff.mp h, he, hn, hs]

theorem Token.isBreak_of_kind {t : Token} {kind : TokenKind} (h : t.kind = kind)
    (he : kind ≠ .endOfText) (hn : kind ≠ .newline) (hd : kind ≠ .delimiter) :
    t.isBreak = false := by
  simp [isBreak, isEnd, isSeparator, is, h, he, hn, hd]

/-- What starts an operand breaks no line. -/
theorem Token.StartsOperand.isBreak {t : Token} (h : t.StartsOperand) : t.isBreak = false :=
  Bool.or_eq_false_iff.mpr ⟨h.not_end, h.not_separator⟩

theorem Token.isBreak_of_name {t : Token} (h : t.isName) : t.isBreak = false := by
  rcases Token.kind_of_isName h with hk | hk
  · exact Token.isBreak_of_kind hk (by decide) (by decide) (by decide)
  · exact Token.isBreak_of_kind hk (by decide) (by decide) (by decide)

/-- An operator breaks no line. -/
theorem Token.isBreak_of_binaryOp? {t : Token} {op : BinaryOp} (h : t.binaryOp? = some op) :
    t.isBreak = false := by
  rcases Token.kind_of_binaryOp? h with hk | hk
  · exact Token.isBreak_of_kind hk (by decide) (by decide) (by decide)
  · exact Token.isBreak_of_kind hk (by decide) (by decide) (by decide)

/-- Parameters stand on one line. -/
theorem SpellsMoreParams.noBreak {ts : List Token} {ps : List String}
    (h : SpellsMoreParams ts ps) : NoBreak ts := by
  induction h with
  | last ht hr => simp [Token.isBreak_of_kind ht, Token.isBreak_of_is hr]
  | more ht hc _ ih => simp [Token.isBreak_of_kind ht, Token.isBreak_of_is hc, ih]

theorem SpellsParams.noBreak {ts : List Token} {ps : List String} (h : SpellsParams ts ps) :
    NoBreak ts := by
  cases h with
  | none hr => simp [Token.isBreak_of_is hr]
  | some h => exact h.noBreak

/-- Neither the end of the text nor a separator belongs to a phrase. -/
theorem Spells.noBreak {ts : List Token} {φ : Phrase} (h : Spells ts φ) : NoBreak ts := by
  induction h with
  | number ht | var ht => simp [Token.isBreak_of_kind ht]
  | unary ht _ ih => simp [(Token.StartsOperand.of_prefixOp? ht).isBreak, ih]
  | callNone ht hl hr =>
    simp [Token.isBreak_of_kind ht, Token.isBreak_of_is hl, Token.isBreak_of_is hr]
  | call ht hl _ hr ih =>
    simp [Token.isBreak_of_kind ht, Token.isBreak_of_is hl, Token.isBreak_of_is hr, ih]
  | group hl _ hr ih => simp [Token.isBreak_of_is hl, Token.isBreak_of_is hr, ih]
  | conditional hi _ ht _ he _ ihx ihy ihz =>
    simp [Token.isBreak_of_is hi, Token.isBreak_of_is ht, Token.isBreak_of_is he, ihx, ihy, ihz]
  | arrow ht ha _ ih => simp [Token.isBreak_of_kind ht, Token.isBreak_of_is ha, ih]
  | lambda hl hps ha _ ih =>
    simp [Token.isBreak_of_is hl, Token.isBreak_of_is ha, hps.noBreak, ih]
  | nil => exact noBreak_nil
  | cons ht _ _ _ ihx ihls => simp [Token.isBreak_of_binaryOp? ht, ihx, ihls]
  | expr _ _ _ ihx ihls => simp [ihx, ihls]
  | lastArg _ ih => exact ih
  | moreArgs _ hc _ ihx ihxs => simp [Token.isBreak_of_is hc, ihx, ihxs]

/-- A phrase holds no end of the tokens. -/
theorem Spells.noEnd {ts : List Token} {φ : Phrase} (h : Spells ts φ) : NoEnd ts :=
  h.noBreak.noEnd

end Abacus
