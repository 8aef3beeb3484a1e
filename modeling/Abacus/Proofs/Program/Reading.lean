import Abacus.Proofs.Program.Spelling

/-!
# What is spelled is read

The parser goes from left to right, decides by the next one or two tokens and never goes back.
`readsBack_of_spells` says that this loses nothing: whatever a run of tokens spells, the parser
reads it off the front of any list in which the run stands, and leaves the rest.

* `Ends rest`: what must not come next, so that an expression is over.
* `paramsAhead_iff`: the look ahead at an opening parenthesis sees exactly the parameters of a
  lambda.
* The `primary_*` and `links_*` lemmas say what one step of the parser gives.
-/

namespace Abacus

namespace Parser

/-- The reading succeeds with `a` and leaves `rest`. -/
def Gives {α : Type} {ts : List Token} (r : Except ParseError (Parsed α ts)) (a : α)
    (rest : List Token) : Prop :=
  ∃ h, r = .ok ⟨a, rest, h⟩

/-- No binary operator comes next. -/
def NoLink (rest : List Token) : Prop := ∀ t ∈ rest.head?, t.binaryOp? = none

/-- What comes next makes neither a call of a name nor a lambda of a name or a group. -/
def NoTail (rest : List Token) : Prop :=
  ∀ t ∈ rest.head?, t.is .delimiter "(" = false ∧ t.is .operator "=>" = false

/-- What continues no name is no arrow. -/
theorem NoTail.startsWithArrow {rest : List Token} (h : NoTail rest) :
    startsWithArrow rest = false := by
  cases rest with
  | nil => rfl
  | cons t us => exact (h t rfl).2

/-- An expression that has been read ends before what comes next. -/
def Ends (rest : List Token) : Prop := NoTail rest ∧ NoLink rest

section Steps

variable {t l r : Token} {us rest : List Token} {x : Expr}

/-- A token that is no operator stands in front of nothing: the operand starts with it. -/
theorem operand_of_primary (ht : t.prefixOp? = none) :
    operand (t :: us) = primary (t :: us) := by
  rw [operand]
  split
  · rename_i h; rw [ht] at h; cases h
  · rfl

theorem operand_of_name (ht : t.kind = .identifier) :
    operand (t :: us) = primary (t :: us) :=
  operand_of_primary (Token.prefixOp?_eq_none (by simp [ht]) (Token.is_of_kind_ne (by simp [ht])))

theorem operand_of_open (hl : l.is .delimiter "(") :
    operand (l :: us) = primary (l :: us) :=
  operand_of_primary (Token.prefixOp?_eq_none (by simp [(Token.is_iff.mp hl).1])
    (Token.is_of_kind_ne (by simp [(Token.is_iff.mp hl).1])))

/-- An operator in front of an operand is read with it. -/
theorem operand_unary {op : UnaryOp} (ht : t.prefixOp? = some op)
    (hx : Gives (operand us) x rest) : Gives (operand (t :: us)) (.unary op x) rest := by
  obtain ⟨h, hx⟩ := hx
  refine ⟨by simp only [List.length_cons]; omega, ?_⟩
  rw [operand]
  split
  · rename_i op' h'
    rw [ht] at h'; cases h'
    rw [hx]
  · rename_i h'; rw [ht] at h'; cases h'

theorem primary_number {v : Float} (ht : t.kind = .number)
    (hv : Number.read? t.text = some v) : Gives (primary (t :: us)) (.number v) us := by
  refine ⟨by simp, ?_⟩
  rw [primary.eq_def]
  simp only [ht, hv, ↓reduceIte]

/-- A conditional is read from its three parts and the words between them. -/
theorem primary_conditional {i e : Token} {us₁ us₂ us₃ : List Token} {y z : Expr}
    (hi : i.is .keyword "if") (hx : Gives (expr us₁) x (t :: us₂)) (ht : t.is .keyword "then")
    (hy : Gives (expr us₂) y (e :: us₃)) (he : e.is .keyword "else")
    (hz : Gives (expr us₃) z rest) : Gives (primary (i :: us₁)) (.conditional x y z) rest := by
  obtain ⟨h₁, hx⟩ := hx
  obtain ⟨h₂, hy⟩ := hy
  obtain ⟨h₃, hz⟩ := hz
  have hlen : rest.length < (i :: us₁).length := by
    clear hx hy hz; simp only [List.length_cons] at *; omega
  refine ⟨hlen, ?_⟩
  rw [primary.eq_def]
  simp only [(Token.is_iff.mp hi).1, hi, hx, expect, ht, hy, he, hz, ↓reduceIte, reduceCtorEq]

/-- A name is a variable if neither a parenthesis nor an arrow follows it. -/
theorem primary_var (ht : t.kind = .identifier) (h : NoTail us) :
    Gives (primary (t :: us)) (.var t.text) us := by
  refine ⟨by simp, ?_⟩
  rw [primary.eq_def]
  cases us with
  | nil =>
    simp only [ht, Token.is_of_kind_ne (show t.kind ≠ .keyword by simp [ht]), ↓reduceIte,
      reduceCtorEq, Bool.false_eq_true]
  | cons u us =>
    obtain ⟨hl, ha⟩ := h u rfl
    simp only [ht, hl, ha, Token.is_of_kind_ne (show t.kind ≠ .keyword by simp [ht]), ↓reduceIte,
      reduceCtorEq, Bool.false_eq_true]

/-- A name in front of an arrow is the parameter of a function. -/
theorem primary_arrow (ht : t.kind = .identifier) (hl : l.is .operator "=>")
    (hx : Gives (expr us) x rest) :
    Gives (primary (t :: l :: us)) (.lambda [t.text] x) rest := by
  obtain ⟨h, hx⟩ := hx
  refine ⟨by simp only [List.length_cons]; omega, ?_⟩
  rw [primary.eq_def]
  simp only [ht, hl, hx, Token.is_of_kind_ne (show t.kind ≠ .keyword by simp [ht]),
    ↓reduceIte, reduceCtorEq, Bool.false_eq_true]

/-- A name in front of arguments is the name of a call. -/
theorem primary_call {xs : List Expr} (ht : t.kind = .identifier) (hl : l.is .delimiter "(")
    (hxs : Gives (args us) xs rest) :
    Gives (primary (t :: l :: us)) (.call t.text xs) rest := by
  obtain ⟨h, hxs⟩ := hxs
  refine ⟨by simp only [List.length_cons]; omega, ?_⟩
  rw [primary.eq_def]
  simp only [ht, hl, hxs, Token.is_of_kind_ne (show t.kind ≠ .keyword by simp [ht]),
    Token.is_of_kind_ne (show l.kind ≠ .operator by simp [(Token.is_iff.mp hl).1]),
    ↓reduceIte, reduceCtorEq, Bool.false_eq_true]

/-- Parentheses without parameters and an arrow behind them hold a group. -/
theorem primary_group (hl : l.is .delimiter "(") (hp : paramsAhead us = false)
    (hx : Gives (expr us) x (r :: rest)) (hr : r.is .delimiter ")") :
    Gives (primary (l :: us)) x rest := by
  obtain ⟨h, hx⟩ := hx
  refine ⟨by clear hx; simp only [List.length_cons] at *; omega, ?_⟩
  rw [primary.eq_def]
  simp only [(Token.is_iff.mp hl).1, hl, hp, hx, expect, hr,
    Token.is_of_kind_ne (show l.kind ≠ .keyword by simp [(Token.is_iff.mp hl).1]),
    ↓reduceIte, reduceCtorEq, Bool.false_eq_true]

/-- Parentheses with parameters and an arrow behind them start a function. -/
theorem primary_lambda {a : Token} {us' : List Token} {ps : List String}
    (hl : l.is .delimiter "(") (hp : paramsAhead us = true)
    (hps : Gives (params us) ps (a :: us')) (ha : a.is .operator "=>")
    (hx : Gives (expr us') x rest) : Gives (primary (l :: us)) (.lambda ps x) rest := by
  obtain ⟨h₁, hps⟩ := hps
  obtain ⟨h₂, hx⟩ := hx
  refine ⟨by clear hx hps; simp only [List.length_cons] at *; omega, ?_⟩
  rw [primary.eq_def]
  simp only [(Token.is_iff.mp hl).1, hl, hp, hps, hx, expect, ha,
    Token.is_of_kind_ne (show l.kind ≠ .keyword by simp [(Token.is_iff.mp hl).1]),
    ↓reduceIte, reduceCtorEq, Bool.false_eq_true]

/-- Where no operator comes next, there are no links. -/
theorem links_nil (h : NoLink us) : links us = .ok ⟨([], us), Nat.le_refl _⟩ := by
  cases us with
  | nil => rw [links]
  | cons t us =>
    rw [links]
    split
    · rfl
    · rename_i op h'; rw [h t rfl] at h'; cases h'

/-- An operator and an operand behind it are one link before others. -/
theorem links_cons {op : BinaryOp} {us' : List Token} {ls : Links} (ht : t.binaryOp? = some op)
    (hx : Gives (operand us) x us') (hls : ∃ h, links us' = .ok ⟨(ls, rest), h⟩) :
    ∃ h, links (t :: us) = .ok ⟨((op, x) :: ls, rest), h⟩ := by
  obtain ⟨h₁, hx⟩ := hx
  obtain ⟨h₂, hls⟩ := hls
  refine ⟨by clear hx hls; simp only [List.length_cons] at *; omega, ?_⟩
  rw [links]
  split
  · rename_i h'; rw [ht] at h'; cases h'
  · rename_i op' h'
    rw [ht] at h'; cases h'
    rw [hx]
    simp only [hls]

/-- An expression is its first operand with the links behind it. -/
theorem expr_of_links {us' : List Token} {ls : Links} (hx : Gives (operand us) x us')
    (hls : ∃ h, links us' = .ok ⟨(ls, rest), h⟩) :
    Gives (expr us) (Chain.toExpr x ls) rest := by
  obtain ⟨h₁, hx⟩ := hx
  obtain ⟨h₂, hls⟩ := hls
  refine ⟨by clear hx hls; simp only at *; omega, ?_⟩
  rw [expr, hx]
  simp only [hls]

theorem args_nil (hr : r.is .delimiter ")") : Gives (args (r :: us)) [] us := by
  refine ⟨by simp, ?_⟩
  rw [args, if_pos hr]

theorem args_of_moreArgs {xs : List Expr} (ht : t.is .delimiter ")" = false)
    (hxs : Gives (moreArgs (t :: us)) xs rest) : Gives (args (t :: us)) xs rest := by
  obtain ⟨h, hxs⟩ := hxs
  refine ⟨h, ?_⟩
  rw [args, if_neg (by simp [ht]), hxs]

/-- The last argument stands in front of the closing parenthesis. -/
theorem moreArgs_last (hx : Gives (expr us) x (r :: rest)) (hr : r.is .delimiter ")") :
    Gives (moreArgs us) [x] rest := by
  obtain ⟨h, hx⟩ := hx
  refine ⟨by clear hx; simp only [List.length_cons] at *; omega, ?_⟩
  rw [moreArgs, hx]
  simp only [hr, Token.is_of_text_ne (s := ",") hr (by decide), ↓reduceIte, Bool.false_eq_true]

/-- An argument in front of a comma stands before others. -/
theorem moreArgs_more {c : Token} {us' : List Token} {xs : List Expr}
    (hx : Gives (expr us) x (c :: us')) (hc : c.is .delimiter ",")
    (hxs : Gives (moreArgs us') xs rest) : Gives (moreArgs us) (x :: xs) rest := by
  obtain ⟨h₁, hx⟩ := hx
  obtain ⟨h₂, hxs⟩ := hxs
  refine ⟨by clear hx hxs; simp only [List.length_cons] at *; omega, ?_⟩
  rw [moreArgs, hx]
  simp only [hc, hxs, ↓reduceIte]

end Steps

/-! ## Parameters -/

/-- Parameters are read as they are spelled, whatever is behind the parenthesis that closes them. -/
theorem moreParams_complete {ts : List Token} {ps : List String} (h : SpellsMoreParams ts ps)
    (rest : List Token) : Gives (moreParams (ts ++ rest)) ps rest := by
  induction h with
  | last ht hr =>
    refine ⟨by simp only [List.cons_append, List.nil_append, List.length_cons]; omega, ?_⟩
    simp only [List.cons_append, List.nil_append, moreParams, ht, hr,
      Token.is_of_text_ne (s := ",") hr (by decide), ↓reduceIte, Bool.false_eq_true]
  | more ht hc hts ih =>
    obtain ⟨h, ih⟩ := ih
    refine ⟨by simp only [List.cons_append, List.length_cons]; omega, ?_⟩
    simp only [List.cons_append, moreParams, ht, hc, ih, ↓reduceIte]

theorem params_of_moreParams {t : Token} {us rest : List Token} {ps : List String}
    (ht : t.is .delimiter ")" = false) (h : Gives (moreParams (t :: us)) ps rest) :
    Gives (params (t :: us)) ps rest := by
  obtain ⟨h, hps⟩ := h
  exact ⟨h, by rw [params, if_neg (by simp [ht]), hps]⟩

/-- Parameters are read as they are spelled, whether there are any or none. -/
theorem params_complete {ts : List Token} {ps : List String} (h : SpellsParams ts ps)
    (rest : List Token) : Gives (params (ts ++ rest)) ps rest := by
  cases h with
  | none hr =>
    refine ⟨by simp, ?_⟩
    simp only [List.cons_append, List.nil_append, params, hr, ↓reduceIte]
  | some hts =>
    obtain ⟨t, u, us, rfl, ht, -⟩ := hts.second
    exact params_of_moreParams (Token.is_of_kind_ne (by rw [ht]; decide))
      (moreParams_complete hts rest)

/-- Where more parameters and an arrow are ahead, they are spelled there. -/
theorem spells_of_moreParamsAhead : {ts : List Token} → moreParamsAhead ts = true →
    ∃ us ps a rest, ts = us ++ a :: rest ∧ SpellsMoreParams us ps ∧ a.is .operator "=>"
  | [], h => by cases h
  | [t], h => by simp [moreParamsAhead] at h
  | t :: u :: us, h => by
    simp only [moreParamsAhead, Bool.and_eq_true, decide_eq_true_eq] at h
    obtain ⟨ht, h⟩ := h
    split at h
    · rename_i hc
      obtain ⟨vs, ps, a, rest, rfl, hps, ha⟩ := spells_of_moreParamsAhead h
      exact ⟨t :: u :: vs, _, a, rest, rfl, .more ht hc hps, ha⟩
    · simp only [Bool.and_eq_true] at h
      obtain ⟨hr, ha⟩ := h
      cases us with
      | nil => cases ha
      | cons a rest => exact ⟨[t, u], _, a, rest, rfl, .last ht hr, ha⟩

/-- Where more parameters and an arrow are spelled, they are found ahead. -/
theorem moreParamsAhead_of_spells {us rest : List Token} {ps : List String} {a : Token}
    (hps : SpellsMoreParams us ps) (ha : a.is .operator "=>") :
    moreParamsAhead (us ++ a :: rest) = true := by
  induction hps with
  | @last t r ht hr =>
    have hne : r.is .delimiter "," = false := Token.is_of_text_ne hr (by decide)
    simp [moreParamsAhead, ht, hr, startsWithArrow, ha, hne]
  | more ht hc hts ih => simp [moreParamsAhead, ht, hc, ih]

/-- The parser takes an opening parenthesis for the start of a lambda exactly when parameters and
an arrow follow. -/
theorem paramsAhead_iff {ts : List Token} :
    paramsAhead ts = true ↔
      ∃ us ps a rest, ts = us ++ a :: rest ∧ SpellsParams us ps ∧ a.is .operator "=>" := by
  constructor
  · intro h
    cases ts with
    | nil => cases h
    | cons t us =>
      rw [paramsAhead] at h
      split at h
      · rename_i hr
        cases us with
        | nil => cases h
        | cons a rest => exact ⟨[t], [], a, rest, rfl, .none hr, h⟩
      · obtain ⟨vs, ps, a, rest, hts, hps, ha⟩ := spells_of_moreParamsAhead h
        exact ⟨vs, ps, a, rest, hts, .some hps, ha⟩
  · rintro ⟨us, ps, a, rest, rfl, hps, ha⟩
    cases hps with
    | none hr => simp [paramsAhead, hr, startsWithArrow, ha]
    | some hps =>
      obtain ⟨t, u, us, rfl, ht, -⟩ := hps.second
      have hr : t.is .delimiter ")" = false := Token.is_of_kind_ne (by rw [ht]; decide)
      rw [List.cons_append, paramsAhead, if_neg (by simp [hr])]
      exact moreParamsAhead_of_spells hps ha

/-! ## What is spelled is read -/

/-- An operator continues no name. -/
theorem noTail_of_binaryOp? {t : Token} {op : BinaryOp} {us : List Token}
    (h : t.binaryOp? = some op) : NoTail (t :: us) := by
  intro t' ht'
  cases ht'
  exact ⟨Token.is_of_binaryOp? h (by decide), Token.is_of_binaryOp? h (by decide)⟩

theorem ends_of_is {t : Token} {kind : TokenKind} {text : String} {us : List Token}
    (h : t.is kind text = true) (hl : text ≠ "(" := by decide) (ha : text ≠ "=>" := by decide)
    (ht : BinaryOp.ofSpelling? text = none := by decide) : Ends (t :: us) := by
  constructor
  · intro t' ht'
    cases ht'
    exact ⟨Token.is_of_text_ne h hl, Token.is_of_text_ne h ha⟩
  · intro t' ht'
    cases ht'
    exact Token.binaryOp?_of_is h ht

/-- A group that no arrow follows is not taken for the parameters of a lambda. -/
theorem paramsAhead_group {ts rest : List Token} {r : Token} (hts : Starts ts)
    (hr : r.is .delimiter ")") (hrest : startsWithArrow rest = false) :
    paramsAhead (ts ++ r :: rest) = false := by
  apply Bool.eq_false_iff.mpr
  intro h
  obtain ⟨us, ps, a, rest', he, hps, ha⟩ := paramsAhead_iff.mp h
  obtain ⟨t, ts, rfl, ht, hname⟩ := hts
  cases hps with
  | none hr' =>
    obtain ⟨rfl, -⟩ := List.cons.inj he
    exact ht.not_breaksOff (.inr (.inl hr'))
  | some hps =>
    -- Behind the first name there is a comma or a parenthesis, so that the group ends there.
    obtain ⟨t', u, vs, rfl, ht', hu⟩ := hps.second
    obtain ⟨rfl, he'⟩ := List.cons.inj he
    cases ts with
    | cons v ws =>
      obtain ⟨rfl, -⟩ := List.cons.inj he'
      exact hname (by simp [Token.isName, ht']) v rfl hu
    | nil =>
      obtain ⟨rfl, he''⟩ := List.cons.inj he'
      cases hps with
      | last _ _ =>
        obtain rfl : rest = a :: rest' := he''
        rw [startsWithArrow, ha] at hrest
        cases hrest
      | more _ hc _ => rw [Token.is_of_text_ne hr (by decide)] at hc; cases hc

/-- The parser reads the phrase off `ts`, whatever may follow it. -/
def ReadsBack (ts : List Token) : Phrase → Prop
  | .expr x => ∀ rest, Ends rest → Gives (expr (ts ++ rest)) x rest
  | .operand x o => ∀ rest, NoTail rest → (o = true → NoLink rest) →
    Gives (operand (ts ++ rest)) x rest
  | .links ls => ∀ rest, Ends rest → ∃ h, links (ts ++ rest) = .ok ⟨(ls, rest), h⟩
  | .args xs => ∀ r rest, r.is .delimiter ")" → Gives (moreArgs (ts ++ r :: rest)) xs rest

/-- What may follow a chain may follow each of its operands, and where the chain goes on behind an
operand, that operand is not open. -/
theorem Ends.append {us rest : List Token} {ls : Links} {o : Bool} (h : Ends rest)
    (hls : StartsLike us (.links ls)) (ho : o = true → us = []) :
    NoTail (us ++ rest) ∧ (o = true → NoLink (us ++ rest)) := by
  cases us with
  | nil => exact ⟨h.1, fun _ => h.2⟩
  | cons t us =>
    obtain ⟨op, hop⟩ := Option.isSome_iff_exists.mp (hls t rfl)
    exact ⟨noTail_of_binaryOp? hop, fun h => absurd (ho h) (by simp)⟩

/-- The parser reads what is spelled: its greedy choices and its look ahead never go wrong. -/
theorem readsBack_of_spells {ts : List Token} {φ : Phrase} (h : Spells ts φ) : ReadsBack ts φ := by
  induction h with
  | number ht hv =>
    intro rest _ _
    rw [List.cons_append, operand_of_primary (Token.prefixOp?_eq_none (by simp [ht])
      (Token.is_of_kind_ne (by simp [ht])))]
    exact primary_number ht hv
  | var ht =>
    intro rest hn _
    rw [List.cons_append, operand_of_name ht]
    exact primary_var ht hn
  | unary ht hx ih => exact fun rest hn hl => operand_unary ht (ih rest hn hl)
  | callNone ht hl hr =>
    intro rest _ _
    simp only [List.cons_append, List.nil_append]
    rw [operand_of_name ht]
    exact primary_call ht hl (args_nil hr)
  | @call t l r ts xs ht hl hxs hr ih =>
    intro rest _ _
    -- Arguments start with something that starts an operand, so that the parenthesis is not closed
    -- at once.
    obtain ⟨u, us, rfl, hu⟩ := hxs.startsLike
    rw [show t :: l :: (u :: us ++ [r]) ++ rest = t :: l :: u :: (us ++ r :: rest) by simp,
      operand_of_name ht]
    exact primary_call ht hl (args_of_moreArgs hu.is_close (ih r rest hr))
  | @group l r ts x hl hx hr ih =>
    intro rest hn _
    rw [show l :: (ts ++ [r]) ++ rest = l :: (ts ++ r :: rest) by simp, operand_of_open hl]
    exact primary_group hl (paramsAhead_group hx.startsLike hr hn.startsWithArrow)
      (ih _ (ends_of_is hr)) hr
  | @conditional i t e ts us vs x y z hi hx ht hy he hz ihx ihy ihz =>
    intro rest hn hl
    rw [show i :: (ts ++ t :: (us ++ e :: vs)) ++ rest =
        i :: (ts ++ t :: (us ++ e :: (vs ++ rest))) by simp,
      operand_of_primary (Token.prefixOp?_eq_none (by simp [(Token.is_iff.mp hi).1])
        (Token.is_of_text_ne hi (by decide)))]
    exact primary_conditional hi (ihx _ (ends_of_is ht)) ht (ihy _ (ends_of_is he)) he
      -- The last part is open at its end, and nothing may follow that would continue it.
      (ihz rest ⟨hn, hl rfl⟩)
  | arrow ht ha hx ih =>
    intro rest hn hl
    simp only [List.cons_append]
    rw [operand_of_name ht]
    exact primary_arrow ht ha (ih rest ⟨hn, hl rfl⟩)
  | @lambda l a ps ts names x hl hps ha hx ih =>
    intro rest hn hlink
    rw [show l :: (ps ++ a :: ts) ++ rest = l :: (ps ++ a :: (ts ++ rest)) by simp,
      operand_of_open hl]
    exact primary_lambda hl (paramsAhead_iff.mpr ⟨ps, names, a, ts ++ rest, rfl, hps, ha⟩)
      (params_complete hps _) ha (ih rest ⟨hn, hlink rfl⟩)
  | nil => exact fun rest h => ⟨_, links_nil h.2⟩
  | @cons t op ts us x o ls ht hx hls ho ihx ihls =>
    intro rest h
    -- Behind the operand come the other links or what is behind them all; neither continues the
    -- operand.
    obtain ⟨hn, hl⟩ := h.append hls.startsLike ho
    rw [show t :: (ts ++ us) ++ rest = t :: (ts ++ (us ++ rest)) by simp]
    exact links_cons ht (ihx _ hn hl) (ihls rest h)
  | @expr ts us x o ls hx hls ho ihx ihls =>
    intro rest h
    obtain ⟨hn, hl⟩ := h.append hls.startsLike ho
    rw [List.append_assoc]
    exact expr_of_links (ihx _ hn hl) (ihls rest h)
  | lastArg hx ih => exact fun r rest hr => moreArgs_last (ih _ (ends_of_is hr)) hr
  | @moreArgs c ts us x xs hx hc hxs ihx ihxs =>
    intro r rest hr
    rw [show ts ++ c :: us ++ r :: rest = ts ++ c :: (us ++ r :: rest) by simp]
    exact moreArgs_more (ihx _ (ends_of_is hc)) hc (ihxs r rest hr)

/-- An expression is read as it is spelled. -/
theorem expr_complete {ts rest : List Token} {x : Expr} (h : Spells ts (.expr x))
    (hrest : Ends rest) : Gives (expr (ts ++ rest)) x rest :=
  readsBack_of_spells h rest hrest

end Parser

end Abacus
