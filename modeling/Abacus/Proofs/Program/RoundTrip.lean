import Abacus.Program.Printer
import Abacus.Proofs.Number.PlainText
import Abacus.Proofs.Program.Numbers
import Abacus.Proofs.Program.WellFormed
import Abacus.Proofs.Token.Cuts

/-!
# Printing and reading back

The text of a well-formed program is read as the same program, provided that each of its numbers has
a text that is scanned as one number and reads back equal (`Number.Rereads`); negative numbers,
numbers with an exponent and what is no finite number have none. The text is cut into tokens
(`Expr.writes`, `Stmt.writes`), and these spell the program with each number as it is read back.
-/

namespace Abacus

namespace Number

/-- The number as its text reads back, if that is a numeral. -/
def reread (v : Float) : Float := (read? (plain v)).getD v

/-- The text of the number is scanned as one number, which equals the number. -/
def Rereads (v : Float) : Prop :=
  ∃ t e w, sourceTokens (plain v) = .ok [t, e] ∧ t.kind = .number ∧ read? t.text = some w ∧
    (w == v) = true

/-- The text of a number holds no blank and no line break. -/
theorem noLayout_plain (v : Float) : Lexicon.NoLayout (plain v).toList := by
  have hchars : ∀ c ∈ textChars, Lexicon.isBlank c = false ∧ c ≠ '#' ∧ c ≠ '\n' :=
    List.all_iff_forall_prop.mp (by decide)
  exact fun c hc => hchars c (inText_plain v c hc)

/-- What it is for a number to be read again: its text is one numeral, and stands for an equal
number. -/
theorem Rereads.spec {v : Float} (h : Rereads v) :
    IsNumeral (plain v).toList ∧ read? (plain v) = some (reread v) ∧ (reread v == v) = true := by
  obtain ⟨t, e, w, hts, hk, hw, hwv⟩ := h
  cases htokens : Lexicon.standard.tokens (plain v) with
  | error err => rw [sourceTokens, htokens] at hts; cases hts
  | ok ts =>
    rw [sourceTokens, htokens] at hts
    cases hts
    have htext := (noLayout_plain v).text_eq htokens hk
    obtain ⟨body, hbody, hfits⟩ := Lexicon.tokens_ok htokens
    have ht : t ∈ body := by
      obtain ⟨rfl, -⟩ := List.append_inj' (show [t] ++ [e] = body ++ [_] from hbody) rfl
      exact List.mem_singleton_self t
    have hnumeral := (hfits t ht).1
    rw [hk, htext] at hnumeral
    rw [htext] at hw
    have hread : reread v = w := by rw [reread, hw, Option.getD_some]
    exact ⟨hnumeral, by rw [hread, hw], by rw [hread, hwv]⟩

end Number

/-! ## Names -/

theorem wordKind_of_isName {s : String} (h : IsName s) :
    Lexicon.standard.wordKind s.toList = .identifier := by
  rw [Lexicon.wordKind, String.ofList_toList, if_neg h.2]

theorem solid_of_isWord {s : String} (h : IsWord s) : Solid s.toList := by
  obtain ⟨c, cs, hs, hc, -⟩ := h
  rw [hs]
  exact Lexicon.solid_of_isWordStart hc cs

/-- A name is scanned as one token, unless a word goes on behind it. -/
theorem writes_name {s : String} (h : IsName s) :
    Writes Stops s.toList (One fun t => t.kind = .identifier ∧ t.text = s) := by
  have hw := Writes.word h.1
  rwa [wordKind_of_isName h] at hw

/-- A word that is a keyword. -/
theorem writes_keyword {s : String} (h : IsWord s) (hk : s ∈ Lexicon.standard.keywords) :
    Writes Stops s.toList (One fun t => t.is .keyword s) := by
  have hw := Writes.word h
  rw [Lexicon.wordKind, String.ofList_toList, if_pos hk] at hw
  apply hw.imp
  rintro _ ⟨t, ht, h⟩
  exact ⟨t, ht, Token.is_iff.mpr h⟩

/-- A list of texts starts as its first text does. -/
theorem solid_intercalate (sep : String) {s : String} (h : Solid s.toList) (ss : List String) :
    Solid (sep.intercalate (s :: ss)).toList := by
  cases ss with
  | nil => rwa [String.intercalate_singleton]
  | cons s' ss =>
    rw [String.intercalate_cons_cons, String.append_assoc, String.toList_append]
    exact h.append _

/-- A comma or a semicolon with a blank behind it. -/
theorem writes_delimiterBlank {c : Char} (hc : c ∈ delimiterChars) :
    Writes Solid ([c] ++ [' ']) (One fun t => t.is .delimiter (String.ofList [c])) :=
  ((Writes.delimiter hc).weaken fun _ _ => trivial).blankBehind

/-! ## Parameters -/

/-- Parameters between commas are read back, with the parenthesis behind them. -/
theorem writes_moreParams (p : String) (ps : List String) (h : ∀ q ∈ p :: ps, IsName q) :
    Writes (fun _ => True) ((", ".intercalate (p :: ps)).toList ++ [')'])
      (SpellsMoreParams · (p :: ps)) := by
  induction ps generalizing p with
  | nil =>
    obtain ⟨hp, -⟩ := List.forall_mem_cons.mp h
    rw [String.intercalate_singleton]
    refine ((writes_name hp).append (Writes.delimiter (by decide))
      fun rest _ => stops_delimiter (by decide) rest).imp ?_
    rintro _ ⟨_, _, rfl, ⟨t, rfl, hk, rfl⟩, ⟨r, rfl, hr⟩⟩
    exact .last hk hr
  | cons q ps ih =>
    obtain ⟨hp, hps⟩ := List.forall_mem_cons.mp h
    have htext : (", ".intercalate (p :: q :: ps)).toList ++ [')'] = p.toList ++
        ([','] ++ [' '] ++ ((", ".intercalate (q :: ps)).toList ++ [')'])) := by
      simp [String.intercalate_cons_cons]
    have hsolid := solid_intercalate ", " (solid_of_isWord (hps q List.mem_cons_self).1) ps
    rw [htext]
    refine ((writes_name hp).append ((writes_delimiterBlank (by decide)).append (ih q hps)
      fun rest _ => (hsolid.append _).append rest)
      fun rest _ => stops_delimiter (by decide) _).imp ?_
    rintro _ ⟨_, _, rfl, ⟨t, rfl, hk, rfl⟩, _, us, rfl, ⟨c, rfl, hc⟩, hus⟩
    exact .more hk hc hus

/-- Parameters are read back whether there are any or none. -/
theorem writes_params (ps : List String) (h : ∀ p ∈ ps, IsName p) :
    Writes (fun _ => True) ((", ".intercalate ps).toList ++ [')']) (SpellsParams · ps) := by
  cases ps with
  | nil =>
    apply (Writes.delimiter (by decide)).imp
    rintro _ ⟨r, rfl, hr⟩
    exact .none hr
  | cons p ps => exact (writes_moreParams p ps h).imp fun _ hts => .some hts

/-! ## Operators -/

theorem binaryOp?_symbol {t : Token} {kind : TokenKind} {op : BinaryOp} (h : t.is kind op.symbol)
    (hk : kind = .operator ∨ kind = .keyword) : t.binaryOp? = some op := by
  have hspelling : BinaryOp.ofSpelling? op.symbol = some op := by cases op <;> decide
  obtain ⟨hkind, htext⟩ := Token.is_iff.mp h
  rw [Token.binaryOp?, hkind, htext, if_pos (by simpa using hk), hspelling]

/-- The sign of an operator is scanned as one token that stands for the operator, in front of a
blank. -/
theorem writes_binaryOp (op : BinaryOp) :
    Writes BlankNext op.symbol.toList (One fun t => t.binaryOp? = some op) := by
  have hkeyword : op = .and ∨ op = .or → IsWord op.symbol ∧
      op.symbol ∈ Lexicon.standard.keywords := by
    rintro (rfl | rfl)
    · exact ⟨Lexicon.isWord_of_wordRun (by decide) (by decide), by decide⟩
    · exact ⟨Lexicon.isWord_of_wordRun (by decide) (by decide), by decide⟩
  by_cases hop : op = .and ∨ op = .or
  · obtain ⟨hw, hk⟩ := hkeyword hop
    apply ((writes_keyword hw hk).weaken fun _ => stops_blank).imp
    rintro _ ⟨t, rfl, ht⟩
    exact ⟨t, rfl, binaryOp?_symbol ht (.inr rfl)⟩
  · have hnext : ∀ rest, BlankNext rest → Lexicon.standard.next? (op.symbol.toList ++ rest) =
        some (.operator, op.symbol.toList) := by
      rintro _ ⟨cs, rfl⟩
      cases op
      case and => exact absurd (.inl rfl) hop
      case or => exact absurd (.inr rfl) hop
      all_goals rfl
    have hne : op.symbol.toList ≠ [] := by cases op <;> decide
    apply (Writes.operator hne hnext).imp
    rintro _ ⟨t, rfl, ht⟩
    exact ⟨t, rfl, binaryOp?_symbol ht (.inl rfl)⟩

/-- No sign starts with a blank, so that none is lost behind the blank in front of it. -/
theorem solid_symbol (op : BinaryOp) : Solid op.symbol.toList := by
  cases op <;> exact ⟨_, _, rfl, by decide, by decide⟩

/-- The sign in front of an operand is scanned as one token, whatever the operand starts with. -/
theorem writes_unaryOp (op : UnaryOp) :
    Writes Solid op.symbol.toList (One fun t => t.prefixOp? = some op) := by
  cases op with
  | neg =>
    apply (Writes.operator (s := "-") (by decide) fun rest _ => rfl).imp
    rintro _ ⟨t, rfl, ht⟩
    exact ⟨t, rfl, by simp [Token.prefixOp?, ht]⟩
  | not =>
    have hword : IsWord "not" := Lexicon.isWord_of_wordRun (by decide) (by decide)
    apply (((writes_keyword hword (by decide)).weaken fun _ => stops_blank).blankBehind).imp
    rintro _ ⟨t, rfl, ht⟩
    exact ⟨t, rfl, by simp [Token.prefixOp?, ht, Token.is_of_is_ne ht]⟩

/-! ## Expressions -/

/-- The names and the numbers of the expression can be written. -/
structure Expr.Writable (x : Expr) : Prop where
  wellFormed : x.WellFormed
  rereads : ∀ v ∈ x.literals, Number.Rereads v

theorem solid_open (rest : List Char) : Solid ('(' :: rest) :=
  ⟨'(', rest, rfl, by decide, by decide⟩

/-- The text of an expression starts with a character of its first token. -/
theorem Expr.solid_print {x : Expr} (h : x.Writable) : Solid x.print.toList := by
  obtain ⟨hx, hv⟩ := h
  cases x with
  | number v =>
    rw [literals, List.forall_mem_singleton] at hv
    rw [print]
    -- A number, a name and a call start as a word or numeral does; everything else starts with a
    -- parenthesis.
    exact Lexicon.solid_of_isNumeral hv.spec.1
  | var name =>
    rw [Expr.WellFormed] at hx
    rw [print]
    exact solid_of_isWord hx.1
  | call name args =>
    rw [Expr.WellFormed] at hx
    rw [print, String.append_assoc, String.append_assoc, String.toList_append]
    exact (solid_of_isWord hx.1.1).append _
  | unary op x =>
    rw [print]
    simp only [String.toList_append]
    exact solid_open _
  | binary op x y =>
    rw [print]
    simp only [String.toList_append]
    exact solid_open _
  | conditional c t e =>
    rw [print]
    simp only [String.toList_append]
    exact solid_open _
  | lambda ps b =>
    rw [print]
    simp only [String.toList_append]
    exact solid_open _

theorem Chain.toExpr_single (op : BinaryOp) (x y : Expr) :
    Chain.toExpr x [(op, y)] = .binary op x y := by
  cases op <;> rfl

/-- An operand between parentheses, with an operator in front of it or not. -/
theorem Spells.group_operand {l r : Token} {ts : List Token} {x : Expr} {o : Bool}
    (hl : l.is .delimiter "(") (hx : Spells ts (.operand x o)) (hr : r.is .delimiter ")") :
    Spells (l :: (ts ++ [r])) (.operand x false) :=
  .group hl hx.expr_of_operand hr

/-- An operator between an operand and another one makes an expression. -/
theorem Spells.binary {ts us : List Token} {t : Token} {op : BinaryOp} {x y : Expr} {o : Bool}
    (hx : Spells ts (.operand x false)) (ht : t.binaryOp? = some op)
    (hy : Spells us (.operand y o)) : Spells (ts ++ t :: us) (.expr (.binary op x y)) := by
  have hlinks := Spells.cons ht hy .nil fun _ => rfl
  have hexpr := Spells.expr hx hlinks fun h => by cases h
  rwa [List.append_nil, Chain.toExpr_single] at hexpr

theorem isWord_if : IsWord "if" := Lexicon.isWord_of_wordRun (by decide) (by decide)

theorem isWord_then : IsWord "then" := Lexicon.isWord_of_wordRun (by decide) (by decide)

theorem isWord_else : IsWord "else" := Lexicon.isWord_of_wordRun (by decide) (by decide)

/-- An arrow in front of a blank is one operator, not an equals sign with something behind it. -/
theorem next?_arrow (rest : List Char) (h : BlankNext rest) :
    Lexicon.standard.next? ("=>".toList ++ rest) = some (.operator, "=>".toList) := by
  obtain ⟨cs, rfl⟩ := h
  rfl

theorem solid_arrow : Solid "=>".toList := ⟨'=', ['>'], rfl, by decide, by decide⟩

/-- The text of `x` starts with neither a blank nor a comment, and before anything that no word goes
on with it is cut into tokens that spell `x'`. -/
structure Expr.WrittenAs (x x' : Expr) : Prop where
  solid : Solid x.print.toList
  writes : Writes Stops x.print.toList (Spells · (.operand x' false))

namespace Expr.WrittenAs

open Number (reread)

variable {x x' y y' z z' : Expr}

/-- A number is written by one token, which stands for the number that is read again. -/
theorem writes_number {v : Float} (hv : Number.Rereads v) :
    Writes Stops (Expr.number v).print.toList (Spells · (.operand (.number (reread v)) false)) := by
  obtain ⟨hnumeral, hread, -⟩ := hv.spec
  rw [print]
  apply (Writes.number hnumeral).imp
  rintro _ ⟨t, rfl, hk, ht⟩
  exact .number hk (ht ▸ hread)

/-- A unary operator is written in parentheses around its operand. -/
theorem writes_unary (op : UnaryOp) (hx : x.WrittenAs x') :
    Writes Stops (Expr.unary op x).print.toList (Spells · (.operand (.unary op x') false)) := by
  have htext : (Expr.unary op x).print.toList =
      ['('] ++ (op.symbol.toList ++ x.print.toList ++ [')']) := by simp [print]
  have hall := (writes_unaryOp op).append hx.writes fun rest _ => hx.solid.append rest
  rw [htext]
  apply (hall.parens.weaken fun _ _ => trivial).imp
  rintro _ ⟨l, _, r, rfl, hl, ⟨_, ts, rfl, ⟨t, rfl, ht⟩, hts⟩, hr⟩
  exact .group_operand hl (.unary ht hts) hr

/-- A binary operator is written in parentheses, with blanks around its sign. -/
theorem writes_binary (op : BinaryOp) (hx : x.WrittenAs x') (hy : y.WrittenAs y') :
    Writes Stops (Expr.binary op x y).print.toList
      (Spells · (.operand (.binary op x' y') false)) := by
  have htext : (Expr.binary op x y).print.toList = ['('] ++ (x.print.toList ++
      ([' '] ++ (op.symbol.toList ++ [' ']) ++ y.print.toList) ++ [')']) := by simp [print]
  have hop := ((writes_binaryOp op).spaced (solid_symbol op)).append hy.writes
    fun rest _ => hy.solid.append rest
  have hall := hx.writes.append hop fun rest _ => stops_blank ⟨_, rfl⟩
  rw [htext]
  apply (hall.parens.weaken fun _ _ => trivial).imp
  rintro _ ⟨l, _, r, rfl, hl, ⟨ts, _, rfl, hts, _, us, rfl, ⟨t, rfl, ht⟩, hus⟩, hr⟩
  exact .group hl (.binary hts ht hus) hr

/-- A conditional is written in parentheses, with a blank around every word. -/
theorem writes_conditional (hx : x.WrittenAs x') (hy : y.WrittenAs y') (hz : z.WrittenAs z') :
    Writes Stops (Expr.conditional x y z).print.toList
      (Spells · (.operand (.conditional x' y' z') false)) := by
  have htext : (Expr.conditional x y z).print.toList = ['('] ++ ("if".toList ++ [' '] ++
      (x.print.toList ++ ([' '] ++ ("then".toList ++ [' ']) ++
        (y.print.toList ++ ([' '] ++ ("else".toList ++ [' ']) ++ z.print.toList)))) ++ [')']) := by
    simp [print]
  have hi := ((writes_keyword isWord_if (by decide)).weaken fun _ => stops_blank).blankBehind
  have ht := ((writes_keyword isWord_then (by decide)).weaken fun _ => stops_blank).spaced
    (solid_of_isWord isWord_then)
  have he := ((writes_keyword isWord_else (by decide)).weaken fun _ => stops_blank).spaced
    (solid_of_isWord isWord_else)
  have hthird := he.append hz.writes fun rest _ => hz.solid.append rest
  have hsecond := ht.append (hy.writes.append hthird fun rest _ => stops_blank ⟨_, rfl⟩)
    fun rest _ => (hy.solid.append _).append rest
  have hall := hi.append (hx.writes.append hsecond fun rest _ => stops_blank ⟨_, rfl⟩)
    fun rest _ => (hx.solid.append _).append rest
  rw [htext]
  apply (hall.parens.weaken fun _ _ => trivial).imp
  rintro _ ⟨l, _, r, rfl, hl, ⟨_, _, rfl, ⟨i, rfl, hi⟩, ts, _, rfl, hts, _, _, rfl, ⟨t, rfl, ht⟩,
    us, _, rfl, hus, _, vs, rfl, ⟨e, rfl, he⟩, hvs⟩, hr⟩
  exact .group_operand hl (.conditional hi hts.expr_of_operand ht hus.expr_of_operand he
    hvs.expr_of_operand) hr

/-- A function is written in parentheses around its parameters, the arrow and the body. -/
theorem writes_lambda {ps : List String} (hps : ∀ p ∈ ps, IsName p) (hx : x.WrittenAs x') :
    Writes Stops (Expr.lambda ps x).print.toList
      (Spells · (.operand (.lambda ps x') false)) := by
  have htext : (Expr.lambda ps x).print.toList = ['('] ++ (['('] ++
      ((", ".intercalate ps).toList ++ [')'] ++ ([' '] ++ ("=>".toList ++ [' ']) ++
        x.print.toList)) ++ [')']) := by simp [print]
  have harrow := (Writes.operator (s := "=>") (by decide) next?_arrow).spaced solid_arrow
  have hbody := harrow.append hx.writes fun rest _ => hx.solid.append rest
  have hparams := (writes_params ps hps).append hbody fun _ _ => trivial
  have hall := (Writes.delimiter (c := '(') (by decide)).append hparams fun _ _ => trivial
  rw [htext]
  apply (hall.parens.weaken fun _ _ => trivial).imp
  rintro _ ⟨l, _, r, rfl, hl, ⟨_, _, rfl, ⟨l', rfl, hl'⟩, ps, _, rfl, hps, _, ts, rfl,
    ⟨a, rfl, ha⟩, hts⟩, hr⟩
  exact .group_operand hl (.lambda hl' hps ha hts.expr_of_operand) hr

/-- The text of arguments and of the parenthesis behind them is cut into tokens that spell `xs'`. -/
def Args (xs xs' : List Expr) : Prop :=
  Writes (fun _ => True) ((", ".intercalate (printList xs)).toList ++ [')']) (SpellsArgs · xs')

/-- A call is written without parentheses around it, for its own close it. -/
theorem writes_call {name : String} {xs xs' : List Expr} (hname : IsName name)
    (hxs : Args xs xs') :
    Writes Stops (Expr.call name xs).print.toList (Spells · (.operand (.call name xs') false)) := by
  have htext : (Expr.call name xs).print.toList = name.toList ++ (['('] ++
      ((", ".intercalate (printList xs)).toList ++ [')'])) := by simp [print]
  have hargs := (Writes.delimiter (c := '(') (by decide)).append hxs fun _ _ => trivial
  have hall := (writes_name hname).append hargs fun rest _ => stops_delimiter (by decide) _
  rw [htext]
  apply (hall.weaken fun _ _ => trivial).imp
  rintro _ ⟨_, _, rfl, ⟨t, rfl, hk, rfl⟩, _, us, rfl, ⟨l, rfl, hl⟩, hus⟩
  exact .call_of_args hk hl hus

theorem args_nil : Args [] [] := by
  apply (Writes.delimiter (by decide)).imp
  rintro _ ⟨r, rfl, hr⟩
  exact ⟨[], r, rfl, hr, .inl ⟨rfl, rfl⟩⟩

theorem args_single (hx : x.WrittenAs x') : Args [x] [x'] := by
  have hall := hx.writes.append (Writes.delimiter (c := ')') (by decide))
    fun rest _ => stops_delimiter (by decide) rest
  unfold Args
  simp only [printList, String.intercalate_singleton]
  apply hall.imp
  rintro _ ⟨ts, _, rfl, hts, ⟨r, rfl, hr⟩⟩
  exact ⟨ts, r, rfl, hr, .inr (.lastArg hts.expr_of_operand)⟩

/-- One more argument in front of others, with a comma and a blank between them. -/
theorem args_cons {ys ys' : List Expr} (hx : x.WrittenAs x') (hy : Solid y.print.toList)
    (hys : Args (y :: ys) (y' :: ys')) : Args (x :: y :: ys) (x' :: y' :: ys') := by
  have htext : (", ".intercalate (printList (x :: y :: ys))).toList ++ [')'] = x.print.toList ++
      ([','] ++ [' '] ++ ((", ".intercalate (printList (y :: ys))).toList ++ [')'])) := by
    simp [printList, String.intercalate_cons_cons]
  have hsolid : Solid (", ".intercalate (printList (y :: ys))).toList := by
    rw [printList]
    exact solid_intercalate ", " hy _
  have hrest := (writes_delimiterBlank (c := ',') (by decide)).append hys
    fun rest _ => (hsolid.append _).append rest
  have hall := hx.writes.append hrest fun rest _ => stops_delimiter (by decide) _
  unfold Args
  rw [htext]
  apply hall.imp
  rintro _ ⟨ts, _, rfl, hts, _, _, rfl, ⟨c, rfl, hc⟩, us, r, rfl, hr, ⟨-, hnil⟩ | hus⟩
  · cases hnil
  · exact ⟨ts ++ c :: us, r, by simp, hr, .inr (.moreArgs hts.expr_of_operand hc hus)⟩

end Expr.WrittenAs

open Number (reread)

mutual

/-- An expression is written as itself with its numbers as they are read. -/
theorem Expr.writes : (x : Expr) → x.Writable →
    Writes Stops x.print.toList (Spells · (.operand (x.mapNumbers reread) false))
  | .number v, ⟨_, hv⟩ => by
    -- Each kind of expression has its lemma above; what is left is which parts are writable.
    rw [literals, List.forall_mem_singleton] at hv
    rw [mapNumbers]
    exact WrittenAs.writes_number hv
  | .var name, ⟨hx, _⟩ => by
    rw [Expr.WellFormed] at hx
    rw [print, mapNumbers]
    apply (writes_name hx).imp
    rintro _ ⟨t, rfl, hk, rfl⟩
    exact .var hk
  | .unary op x, ⟨hx, hv⟩ => by
    rw [Expr.WellFormed] at hx
    rw [literals] at hv
    rw [mapNumbers]
    exact WrittenAs.writes_unary op ⟨solid_print ⟨hx, hv⟩, Expr.writes x ⟨hx, hv⟩⟩
  | .binary op x y, ⟨hx, hv⟩ => by
    rw [Expr.WellFormed] at hx
    rw [literals, List.forall_mem_append] at hv
    have hx' : x.Writable := ⟨hx.1, hv.1⟩
    have hy' : y.Writable := ⟨hx.2, hv.2⟩
    rw [mapNumbers]
    exact WrittenAs.writes_binary op ⟨solid_print hx', Expr.writes x hx'⟩
      ⟨solid_print hy', Expr.writes y hy'⟩
  | .conditional x y z, ⟨hx, hv⟩ => by
    rw [Expr.WellFormed] at hx
    rw [literals, List.forall_mem_append, List.forall_mem_append] at hv
    have hx' : x.Writable := ⟨hx.1, hv.1⟩
    have hy' : y.Writable := ⟨hx.2.1, hv.2.1⟩
    have hz' : z.Writable := ⟨hx.2.2, hv.2.2⟩
    rw [mapNumbers]
    exact WrittenAs.writes_conditional ⟨solid_print hx', Expr.writes x hx'⟩
      ⟨solid_print hy', Expr.writes y hy'⟩ ⟨solid_print hz', Expr.writes z hz'⟩
  | .call name args, ⟨hx, hv⟩ => by
    rw [Expr.WellFormed] at hx
    rw [literals] at hv
    rw [mapNumbers]
    exact WrittenAs.writes_call hx.1 (Expr.writes_args args hx.2 hv)
  | .lambda ps body, ⟨hx, hv⟩ => by
    rw [Expr.WellFormed] at hx
    rw [literals] at hv
    have hbody : body.Writable := ⟨hx.2, hv⟩
    rw [mapNumbers]
    exact WrittenAs.writes_lambda hx.1 ⟨solid_print hbody, Expr.writes body hbody⟩

/-- Arguments are written as themselves with their numbers as they are read. -/
theorem Expr.writes_args : (xs : List Expr) → WellFormedList xs →
    (∀ v ∈ literalsList xs, Number.Rereads v) → WrittenAs.Args xs (mapNumbersList reread xs)
  | [], _, _ => by
    rw [mapNumbersList]
    exact WrittenAs.args_nil
  | [x], hx, hv => by
    simp only [WellFormedList, literalsList, List.append_nil] at hx hv
    have hx' : x.Writable := ⟨hx.1, hv⟩
    rw [mapNumbersList, mapNumbersList]
    exact WrittenAs.args_single ⟨solid_print hx', Expr.writes x hx'⟩
  | x :: y :: ys, hx, hv => by
    rw [WellFormedList] at hx
    rw [literalsList, List.forall_mem_append] at hv
    have hx' : x.Writable := ⟨hx.1, hv.1⟩
    have hy' : y.Writable := by
      have hy := hx.2
      have hw := hv.2
      rw [WellFormedList] at hy
      rw [literalsList, List.forall_mem_append] at hw
      exact ⟨hy.1, hw.1⟩
    have hys := Expr.writes_args (y :: ys) hx.2 hv.2
    rw [mapNumbersList] at hys ⊢
    exact WrittenAs.args_cons ⟨solid_print hx', Expr.writes x hx'⟩ (solid_print hy') hys

end

/-! ## Statements and programs -/

/-- A word where any name may stand. -/
theorem writes_target {s : String} (h : IsWord s) :
    Writes Stops s.toList (One fun t => t.isName ∧ t.text = s) := by
  apply (Writes.word h).imp
  rintro _ ⟨t, rfl, hk, ht⟩
  refine ⟨t, rfl, ?_, ht⟩
  rw [Lexicon.wordKind] at hk
  split at hk
  · simp [Token.isName, hk]
  · simp [Token.isName, hk]

/-- An equals sign in front of a blank is the sign of an assignment. -/
theorem next?_assign (rest : List Char) (h : BlankNext rest) :
    Lexicon.standard.next? ("=".toList ++ rest) = some (.operator, "=".toList) := by
  obtain ⟨cs, rfl⟩ := h
  rfl

theorem writes_assign : Writes Solid ([' '] ++ ("=".toList ++ [' ']))
    (One fun t => t.is .operator "=") :=
  (Writes.operator (by decide) next?_assign).spaced ⟨'=', [], rfl, by decide, by decide⟩

theorem isWord_def : IsWord "def" := Lexicon.isWord_of_wordRun (by decide) (by decide)

/-- An assignment of anything but a function is written with an equals sign. -/
theorem Stmt.print_assign {name : String} {value : Expr}
    (h : ¬ ∃ ps body, value = .lambda ps body) :
    (Stmt.assign name value).print = name ++ " = " ++ value.print := by
  cases value
  case lambda ps body => exact absurd ⟨ps, body, rfl⟩ h
  all_goals rfl

/-- The assignment of a function is written as a definition, which is read as the assignment. -/
theorem writes_definition {name : String} {ps : List String} {body : Expr} (hname : IsWord name)
    (hps : ∀ p ∈ ps, IsName p) (hbody : body.Writable) :
    Writes Stops (Stmt.assign name (.lambda ps body)).print.toList
      (SpellsStmt · (.assign name (.lambda ps (body.mapNumbers reread)))) := by
  have htext : (Stmt.assign name (.lambda ps body)).print.toList = "def".toList ++ [' '] ++
      (name.toList ++ (['('] ++ ((", ".intercalate ps).toList ++ [')'] ++
        ([' '] ++ ("=".toList ++ [' ']) ++ body.print.toList)))) := by simp [Stmt.print]
  have hdef := ((writes_keyword isWord_def (by decide)).weaken fun _ => stops_blank).blankBehind
  have hvalue := writes_assign.append (body.writes hbody)
    fun rest _ => (Expr.solid_print hbody).append rest
  have hparams := (Writes.delimiter (c := '(') (by decide)).append ((writes_params ps hps).append
    hvalue fun _ _ => trivial) fun _ _ => trivial
  have hrest := (writes_target hname).append hparams fun rest _ => stops_delimiter (by decide) _
  rw [htext]
  refine (hdef.append hrest fun rest _ => ?_).imp ?_
  · rw [List.append_assoc]
    exact (solid_of_isWord hname).append _
  · rintro _ ⟨_, _, rfl, ⟨d, rfl, hd⟩, _, _, rfl, ⟨t, rfl, ht, rfl⟩, _, _, rfl, ⟨l, rfl, hl⟩,
      us, _, rfl, hus, _, vs, rfl, ⟨e, rfl, he⟩, hvs⟩
    exact .definition hd ht hl hus he hvs.expr_of_operand

/-- An assignment is read back as one if its target is not the word that starts a definition. -/
theorem writes_assignment {name : String} {value : Expr} (hname : IsWord name)
    (hdef : name ≠ "def") (hvalue : value.Writable) :
    Writes Stops (name ++ " = " ++ value.print).toList
      (SpellsStmt · (.assign name (value.mapNumbers reread))) := by
  have htext : (name ++ " = " ++ value.print).toList =
      name.toList ++ ([' '] ++ ("=".toList ++ [' ']) ++ value.print.toList) := by simp
  have hrest := writes_assign.append (value.writes hvalue)
    fun rest _ => (Expr.solid_print hvalue).append rest
  rw [htext]
  refine ((writes_target hname).append hrest fun rest _ => stops_blank ⟨_, rfl⟩).imp ?_
  rintro _ ⟨_, _, rfl, ⟨t, rfl, ht, rfl⟩, _, us, rfl, ⟨e, rfl, he⟩, hus⟩
  exact .assign ht (by simp [Token.is, hdef]) he hus.expr_of_operand

/-- The names and the numbers of the statement can be written. -/
structure Stmt.Writable (s : Stmt) : Prop where
  wellFormed : s.WellFormed
  rereads : ∀ v ∈ s.literals, Number.Rereads v

/-- A statement is read back, with the numbers that are read again. -/
theorem Stmt.writes {s : Stmt} (h : s.Writable) :
    Writes Stops s.print.toList (SpellsStmt · (s.mapNumbers reread)) := by
  obtain ⟨hs, hv⟩ := h
  cases s with
  | expr value =>
    refine (value.writes ⟨hs, hv⟩).imp ?_
    exact fun ts hts => .expr hts.expr_of_operand
  | assign name value =>
    obtain ⟨hname, hdef, hvalue⟩ := hs
    by_cases hl : ∃ ps body, value = .lambda ps body
    · obtain ⟨ps, body, rfl⟩ := hl
      rw [Expr.WellFormed] at hvalue
      rw [literals, Expr.literals] at hv
      rw [mapNumbers, Expr.mapNumbers]
      exact writes_definition hname hvalue.1 ⟨hvalue.2, hv⟩
    · rw [print_assign hl]
      exact writes_assignment hname (fun hd => hl (hdef hd)) ⟨hvalue, hv⟩

theorem Stmt.solid_print {s : Stmt} (h : s.Writable) : Solid s.print.toList := by
  obtain ⟨hs, hv⟩ := h
  cases s with
  | expr value => exact Expr.solid_print ⟨hs, hv⟩
  | assign name value =>
    by_cases hl : ∃ ps body, value = .lambda ps body
    · obtain ⟨ps, body, rfl⟩ := hl
      simp only [print, String.toList_append]
      exact ⟨'d', _, rfl, by decide, by decide⟩
    · rw [print_assign hl]
      simp only [String.toList_append, List.append_assoc]
      exact (solid_of_isWord hs.1).append _

/-- Statements are read back in their order. -/
theorem writes_stmts (s : Stmt) (ss : List Stmt) (h : ∀ s' ∈ s :: ss, s'.Writable) :
    Writes Stops ("; ".intercalate ((s :: ss).map Stmt.print)).toList
      (SpellsStmts · ((s :: ss).map (Stmt.mapNumbers reread))) := by
  induction ss generalizing s with
  | nil =>
    rw [List.map_singleton, String.intercalate_singleton]
    exact (Stmt.writes (h s List.mem_cons_self)).imp fun ts hts => .last hts
  | cons s' ss ih =>
    obtain ⟨hs, hss⟩ := List.forall_mem_cons.mp h
    have htext : ("; ".intercalate ((s :: s' :: ss).map Stmt.print)).toList = s.print.toList ++
        ([';'] ++ [' '] ++ ("; ".intercalate ((s' :: ss).map Stmt.print)).toList) := by
      simp [String.intercalate_cons_cons]
    have hsolid : Solid ("; ".intercalate ((s' :: ss).map Stmt.print)).toList :=
      solid_intercalate "; " (Stmt.solid_print (hss s' List.mem_cons_self)) _
    have hrest := (writes_delimiterBlank (c := ';') (by decide)).append (ih s' hss)
      fun rest _ => hsolid.append rest
    rw [htext]
    apply ((Stmt.writes hs).append hrest fun rest _ => stops_delimiter (by decide) _).imp
    rintro _ ⟨ts, _, rfl, hts, _, us, rfl, ⟨t, rfl, ht⟩, hus⟩
    have hsep : t.isSeparator := by simpa [Token.isSeparator] using .inr ht
    exact .more hts hsep separators_nil hus

/-- A program is read back, with the numbers that are read again. -/
theorem Program.writes {p : Program} (hp : p.WellFormed)
    (hv : ∀ v ∈ p.literals, Number.Rereads v) :
    Writes Stops p.print.toList (SpellsProgram · (p.mapNumbers reread)) := by
  obtain ⟨statements⟩ := p
  have hall : ∀ s ∈ statements, s.Writable := fun s hs =>
    ⟨hp s hs, fun v hmem => hv v (List.mem_flatMap.mpr ⟨s, hs, hmem⟩)⟩
  cases statements with
  | nil =>
    apply (Writes.nil.weaken fun _ _ => trivial).imp
    rintro _ rfl
    exact .blank separators_nil
  | cons s ss =>
    apply (writes_stmts s ss hall).imp
    intro ts hts
    have hspells := SpellsProgram.stmts separators_nil hts separators_nil
    rwa [List.nil_append, List.append_nil] at hspells

/-- The text of a well-formed program is read as the program with its numbers as they are read. -/
theorem Program.ofSource_print_eq {p : Program} (hp : p.WellFormed)
    (hv : ∀ v ∈ p.literals, Number.Rereads v) :
    Program.ofSource p.print = .ok (p.mapNumbers reread) := by
  obtain ⟨ts, hcuts, hspells⟩ := Program.writes hp hv 0 [] fun c hc => by cases hc
  refine Program.ofSource_ok_iff.mpr ⟨_, Lexicon.tokens_of_cuts hcuts, ?_⟩
  exact (Program.ofTokens_iff hspells.noEnd rfl).mpr hspells

/-- What is read is well-formed, and a well-formed program whose numbers are each read back as one
equal number is read back equal. -/
theorem Program.ofSource_print :
    (∀ source p, Program.ofSource source = .ok p → p.WellFormed) ∧
    ∀ p : Program, p.WellFormed → (∀ v ∈ p.literals, Number.Rereads v) →
      ∃ q, Program.ofSource p.print = .ok q ∧ q.equal p = true := by
  refine ⟨fun source p h => Program.wellFormed_of_ofSource h, fun p hp hv => ?_⟩
  exact ⟨_, Program.ofSource_print_eq hp hv, p.equal_mapNumbers fun v hmem => (hv v hmem).spec.2.2⟩

/-- A definition, a keyword as a target and a zero with a sign, which is printed without it. -/
theorem Program.ofSource_print_definition :
    ∃ q, Program.ofSource (Program.print ⟨[.assign "f" (.lambda ["x"] (.binary .mul (.var "x")
      (.number 2))), .assign "if" (.call "f" [.number 0.5, .number (-0)])]⟩) = .ok q ∧
      q.equal ⟨[.assign "f" (.lambda ["x"] (.binary .mul (.var "x") (.number 2))),
        .assign "if" (.call "f" [.number 0.5, .number (-0)])]⟩ = true := by
  have hf : IsWord "f" := Lexicon.isWord_of_wordRun (by decide) (by decide)
  have hx : IsWord "x" := Lexicon.isWord_of_wordRun (by decide) (by decide)
  have hrereads : ∀ v ∈ [(2 : Float), 0.5, -0], Number.Rereads v := by
    simp only [List.forall_mem_cons]
    refine ⟨⟨⟨.number, "2", 0⟩, Token.endAt 1, 2, ?_⟩,
      ⟨⟨.number, "0.5", 0⟩, Token.endAt 3, 0.5, ?_⟩,
      ⟨⟨.number, "0", 0⟩, Token.endAt 1, 0, ?_⟩, by simp⟩
    · decide +kernel
    · decide +kernel
    · decide +kernel
  refine Program.ofSource_print.2 _ ?_ fun v hv => hrereads v ?_
  · refine List.forall_mem_cons.mpr ⟨⟨hf, by simp, ?_⟩, List.forall_mem_singleton.mpr
      ⟨isWord_if, by simp, ?_⟩⟩
    · simp only [Expr.WellFormed, List.forall_mem_singleton]
      exact ⟨⟨hx, by decide⟩, ⟨hx, by decide⟩, trivial⟩
    · simp only [Expr.WellFormed, Expr.WellFormedList]
      exact ⟨⟨hf, by decide⟩, trivial, trivial, trivial⟩
  · simpa [Program.literals, Stmt.literals, Expr.literals, Expr.literalsList] using hv

end Abacus
