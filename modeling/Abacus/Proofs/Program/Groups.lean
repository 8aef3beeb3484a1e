import Abacus.Proofs.Program.Whole
import Mathlib.Data.List.Basic

/-!
# Groups

Parentheses around an expression are transparent: the parser gives the tree that it gives without
them, and takes what stands behind them for what it is (`Expr.ofTokens_regrouped`). Only an arrow
behind the closing parenthesis makes a difference, as it makes the group the parameters of a lambda.

* `Regrouped`: the second list is the first one with parentheses around some of its operands and
  expressions, however deep inside they are and however many pairs there are.
* `Regrouped.spellAlike`: both lists stand for the same tree.
-/

namespace Abacus

/-! ## More parentheses -/

/-- What a run of tokens is inside an expression, whatever its tree is. -/
inductive Role where
  | expr
  | operand (isOpen : Bool)
  | links
  | args

/-- The role of a phrase. -/
def Phrase.role : Phrase → Role
  | .expr _ => .expr
  | .operand _ o => .operand o
  | .links _ => .links
  | .args _ => .args

/-- The lists are the same, but that in the second one there may be more parentheses around operands
and around whole expressions. The role is that of the first list. -/
inductive Regrouped : Role → List Token → List Token → Prop
  | same {ts : List Token} {φ : Phrase} (h : Spells ts φ) : Regrouped φ.role ts ts
  | wrap {l r : Token} {ts us : List Token} {o : Bool} (hl : l.is .delimiter "(")
      (h : Regrouped (.operand o) ts us) (hr : r.is .delimiter ")") :
      Regrouped (.operand o) ts (l :: (us ++ [r]))
  | enclose {l r : Token} {ts us : List Token} (hl : l.is .delimiter "(")
      (h : Regrouped .expr ts us) (hr : r.is .delimiter ")") :
      Regrouped .expr ts (l :: (us ++ [r]))
  | unary {t : Token} {op : UnaryOp} {ts us : List Token} {o : Bool} (ht : t.prefixOp? = some op)
      (h : Regrouped (.operand o) ts us) : Regrouped (.operand o) (t :: ts) (t :: us)
  | call {t l r : Token} {ts us : List Token} (ht : t.kind = .identifier)
      (hl : l.is .delimiter "(") (h : Regrouped .args ts us) (hr : r.is .delimiter ")") :
      Regrouped (.operand false) (t :: l :: (ts ++ [r])) (t :: l :: (us ++ [r]))
  | group {l r : Token} {ts us : List Token} (hl : l.is .delimiter "(")
      (h : Regrouped .expr ts us) (hr : r.is .delimiter ")") :
      Regrouped (.operand false) (l :: (ts ++ [r])) (l :: (us ++ [r]))
  | conditional {i t e : Token} {ts ts' us us' vs vs' : List Token} (hi : i.is .keyword "if")
      (hx : Regrouped .expr ts ts') (ht : t.is .keyword "then") (hy : Regrouped .expr us us')
      (he : e.is .keyword "else") (hz : Regrouped .expr vs vs') :
      Regrouped (.operand true) (i :: (ts ++ t :: (us ++ e :: vs)))
        (i :: (ts' ++ t :: (us' ++ e :: vs')))
  | arrow {t a : Token} {ts us : List Token} (ht : t.kind = .identifier)
      (ha : a.is .operator "=>") (h : Regrouped .expr ts us) :
      Regrouped (.operand true) (t :: a :: ts) (t :: a :: us)
  | lambda {l a : Token} {ps ts us : List Token} {names : List String}
      (hl : l.is .delimiter "(") (hps : SpellsParams ps names) (ha : a.is .operator "=>")
      (h : Regrouped .expr ts us) :
      Regrouped (.operand true) (l :: (ps ++ a :: ts)) (l :: (ps ++ a :: us))
  | cons {t : Token} {op : BinaryOp} {ts ts' us us' : List Token} {o : Bool}
      (ht : t.binaryOp? = some op) (hx : Regrouped (.operand o) ts ts')
      (hls : Regrouped .links us us') (ho : o = true → us = []) :
      Regrouped .links (t :: (ts ++ us)) (t :: (ts' ++ us'))
  | expr {ts ts' us us' : List Token} {o : Bool} (hx : Regrouped (.operand o) ts ts')
      (hls : Regrouped .links us us') (ho : o = true → us = []) :
      Regrouped .expr (ts ++ us) (ts' ++ us')
  | lastArg {ts us : List Token} (h : Regrouped .expr ts us) : Regrouped .args ts us
  | moreArgs {c : Token} {ts ts' us us' : List Token} (hx : Regrouped .expr ts ts')
      (hc : c.is .delimiter ",") (hxs : Regrouped .args us us') :
      Regrouped .args (ts ++ c :: us) (ts' ++ c :: us')

/-- Both lists write the same tree in that role. An operand may be open in the first list only. -/
def SpellAlike : Role → List Token → List Token → Prop
  | .expr, ts, us => ∃ x, Spells ts (.expr x) ∧ Spells us (.expr x)
  | .operand o, ts, us => ∃ x o', Spells ts (.operand x o) ∧ Spells us (.operand x o') ∧
      (o' = true → o = true)
  | .links, ts, us => ∃ ls, Spells ts (.links ls) ∧ Spells us (.links ls)
  | .args, ts, us => ∃ xs, Spells ts (.args xs) ∧ Spells us (.args xs)

section Regrouped

variable {ts us : List Token}

theorem spellAlike_self {φ : Phrase} (h : Spells ts φ) : SpellAlike φ.role ts ts := by
  cases φ with
  | expr x => exact ⟨x, h, h⟩
  | operand x o => exact ⟨x, o, h, h, id⟩
  | links ls => exact ⟨ls, h, h⟩
  | args xs => exact ⟨xs, h, h⟩

/-- No tokens are what writes no links. -/
theorem Spells.links_eq_nil_iff {ls : Links} (h : Spells ts (.links ls)) : ls = [] ↔ ts = [] := by
  cases h <;> simp

/-- Where no operator follows in the first list, none follows in the second. -/
theorem SpellAlike.eq_nil (h : SpellAlike .links [] us) : us = [] := by
  obtain ⟨ls, hts, hus⟩ := h
  exact hus.links_eq_nil_iff.mp (hts.links_eq_nil_iff.mpr rfl)

/-- More parentheses make no other tree. -/
theorem Regrouped.spellAlike {role : Role} (h : Regrouped role ts us) : SpellAlike role ts us := by
  -- Both spellings are built by the same rules, except where one of them has a group of its own;
  -- the tree of a group is the tree inside it.
  induction h with
  | same h => exact spellAlike_self h
  | wrap hl _ hr ih =>
    obtain ⟨x, o', hx, hx', -⟩ := ih
    exact ⟨x, false, hx, .group hl hx'.expr_of_operand hr, fun h => by cases h⟩
  | enclose hl _ hr ih =>
    obtain ⟨x, hx, hx'⟩ := ih
    exact ⟨x, hx, (Spells.group hl hx' hr).expr_of_operand⟩
  | unary ht _ ih =>
    obtain ⟨x, o', hx, hx', ho⟩ := ih
    exact ⟨_, o', .unary ht hx, .unary ht hx', ho⟩
  | call ht hl _ hr ih =>
    obtain ⟨xs, hxs, hxs'⟩ := ih
    exact ⟨_, false, .call ht hl hxs hr, .call ht hl hxs' hr, id⟩
  | group hl _ hr ih =>
    obtain ⟨x, hx, hx'⟩ := ih
    exact ⟨x, false, .group hl hx hr, .group hl hx' hr, id⟩
  | conditional hi _ ht _ he _ ihx ihy ihz =>
    obtain ⟨x, hx, hx'⟩ := ihx
    obtain ⟨y, hy, hy'⟩ := ihy
    obtain ⟨z, hz, hz'⟩ := ihz
    exact ⟨_, true, .conditional hi hx ht hy he hz, .conditional hi hx' ht hy' he hz', id⟩
  | arrow ht ha _ ih =>
    obtain ⟨x, hx, hx'⟩ := ih
    exact ⟨_, true, .arrow ht ha hx, .arrow ht ha hx', id⟩
  | lambda hl hps ha _ ih =>
    obtain ⟨x, hx, hx'⟩ := ih
    exact ⟨_, true, .lambda hl hps ha hx, .lambda hl hps ha hx', id⟩
  | cons ht _ _ ho ihx ihls =>
    obtain ⟨x, o', hx, hx', hopen⟩ := ihx
    obtain ⟨ls, hls, hls'⟩ := ihls
    -- An open operand ends its chain in the first spelling, and then in the second too.
    refine ⟨_, .cons ht hx hls ho, .cons ht hx' hls' fun h => ?_⟩
    obtain rfl := ho (hopen h)
    exact SpellAlike.eq_nil ⟨ls, hls, hls'⟩
  | expr _ _ ho ihx ihls =>
    obtain ⟨x, o', hx, hx', hopen⟩ := ihx
    obtain ⟨ls, hls, hls'⟩ := ihls
    refine ⟨_, .expr hx hls ho, .expr hx' hls' fun h => ?_⟩
    obtain rfl := ho (hopen h)
    exact SpellAlike.eq_nil ⟨ls, hls, hls'⟩
  | lastArg _ ih =>
    obtain ⟨x, hx, hx'⟩ := ih
    exact ⟨[x], .lastArg hx, .lastArg hx'⟩
  | moreArgs _ hc _ ihx ihxs =>
    obtain ⟨x, hx, hx'⟩ := ihx
    obtain ⟨xs, hxs, hxs'⟩ := ihxs
    exact ⟨x :: xs, .moreArgs hx hc hxs, .moreArgs hx' hc hxs'⟩

end Regrouped

/-! ## What the parser makes of them -/

/-- In parentheses, and with anything but an arrow behind them, the parser reads the tokens as `x`
and leaves what stands behind them. -/
def GivesEnclosed (ts : List Token) (x : Expr) : Prop :=
  ∀ l r rest, l.is .delimiter "(" → r.is .delimiter ")" → Parser.startsWithArrow rest = false →
    Parser.Gives (Parser.primary (l :: (ts ++ r :: rest))) x rest

section Parsed

variable {ts us : List Token} {e : Token} {x : Expr}

theorem Spells.givesEnclosed (h : Spells ts (.expr x)) : GivesEnclosed ts x :=
  fun _ _ _ hl hr hrest => Parser.primary_group hl (Parser.paramsAhead_group h.startsLike hr hrest)
    (Parser.expr_complete h (Parser.ends_of_is hr)) hr

theorem Separators.eq_nil {seps : List Token} (h : Separators seps) (hb : NoBreak seps) :
    seps = [] := by
  cases seps with
  | nil => rfl
  | cons t seps =>
    have ht := h t List.mem_cons_self
    rw [hb.not_separator t List.mem_cons_self] at ht
    cases ht

/-- Without separators, a single expression is an expression and nothing around it. -/
theorem SpellsSingle.spells (h : SpellsSingle ts x) (hb : NoBreak ts) : Spells ts (.expr x) := by
  obtain ⟨before, us, behind, rfl, hbefore, hx, hbehind⟩ := h
  simp only [noBreak_append] at hb
  obtain rfl := hbefore.eq_nil hb.1
  obtain rfl := hbehind.eq_nil hb.2.2
  rwa [List.append_nil]

theorem Spells.single (h : Spells ts (.expr x)) : SpellsSingle ts x :=
  ⟨[], ts, [], by rw [List.append_nil, List.nil_append], separators_nil, h, separators_nil⟩

/-- If tokens without a separator are a single expression, the parser reads them as the same tree in
parentheses, whatever but an arrow stands behind these. So more parentheses around operands and
expressions inside, any number of them, make no difference either. -/
theorem Expr.ofTokens_regrouped (hts : NoBreak ts) (he : e.isEnd)
    (hx : Expr.ofTokens (ts ++ [e]) = .ok x) :
    GivesEnclosed ts x ∧ ∀ us, Regrouped .expr ts us →
      GivesEnclosed us x ∧ ∀ e' : Token, e'.isEnd → Expr.ofTokens (us ++ [e']) = .ok x := by
  have hspells := ((Expr.ofTokens_iff hts.noEnd he).mp hx).spells hts
  refine ⟨hspells.givesEnclosed, fun us hus => ?_⟩
  obtain ⟨y, hy, hy'⟩ := hus.spellAlike
  have hread := (Expr.ofTokens_iff hts.noEnd he).mpr hy.single
  obtain rfl : x = y := Except.ok.inj (hx.symm.trans hread)
  exact ⟨hy'.givesEnclosed, fun e' he' => (Expr.ofTokens_iff hy'.noEnd he').mpr hy'.single⟩

/-- `a - f(b)` with parentheses around the call and its argument, all of it between parentheses and
with another group behind them. -/
theorem Expr.ofTokens_regrouped_call :
    let a : Token := ⟨.identifier, "a", 0⟩
    let minus : Token := ⟨.operator, "-", 1⟩
    let f : Token := ⟨.identifier, "f", 2⟩
    let b : Token := ⟨.identifier, "b", 3⟩
    let l : Token := ⟨.delimiter, "(", 4⟩
    let r : Token := ⟨.delimiter, ")", 5⟩
    let ts := [a, minus, f, l, b, r]
    let us := [a, minus, l, l, f, l, l, b, r, r, r, r]
    let x := Expr.binary .sub (.var "a") (.call "f" [.var "b"])
    let e := Token.endAt 6
    NoBreak ts ∧ e.isEnd ∧ Expr.ofTokens (ts ++ [e]) = .ok x ∧ Regrouped .expr ts us ∧
      Expr.ofTokens (us ++ [e]) = .ok x ∧
      Parser.Gives (Parser.primary (l :: (us ++ r :: [l, b, r]))) x [l, b, r] := by
  intro a minus f b l r ts us x e
  have hts : NoBreak ts := by decide
  have hx : Expr.ofTokens (ts ++ [e]) = .ok x := by decide +kernel
  have hvar (t : Token) (ht : t.kind = .identifier) : Regrouped (.operand false) [t] [t] :=
    .same (.var ht)
  have hnone : Regrouped .links [] [] := .same .nil
  have harg : Regrouped .args [b] [l, b, r] :=
    .lastArg (.expr (.wrap rfl (hvar b rfl) rfl) hnone fun _ => rfl)
  have hcall : Regrouped (.operand false) [f, l, b, r] [l, l, f, l, l, b, r, r, r, r] :=
    .wrap rfl (.wrap rfl (.call rfl rfl harg rfl) rfl) rfl
  have hus : Regrouped .expr ts us :=
    .expr (hvar a rfl) (.cons rfl hcall hnone fun _ => rfl) fun h => by cases h
  obtain ⟨-, hall⟩ := ofTokens_regrouped hts rfl hx
  obtain ⟨henclosed, hread⟩ := hall us hus
  exact ⟨hts, rfl, hx, hus, hread e rfl, henclosed l r [l, b, r] rfl rfl rfl⟩

end Parsed

end Abacus
