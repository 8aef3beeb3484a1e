import Abacus.Proofs.Program.Grammar

/-!
# Precedence and associativity

Which tree a chain of operands gets. `Chain.Splits first ls x` takes the chain apart at a loosest
operator, the last one of its level, or the first one where the level is that of powers, and takes
both sides apart in turn. No order of passes shows in it, and it leaves one tree
(`Chain.Splits.unique`).

* `Chain.joinAll_append`: passes for other levels do not see an operator, so that they work on both
  sides of it alone.
* `Chain.toExpr_split`: the tree of a chain has its loosest operator at the top.
* `Parser.expr_of_chain`: the parser reads a chain, up to what ends an expression, and gives the
  tree that splitting leaves.
-/

namespace Abacus

open Grammar (rank eq_of_rank)

namespace Chain

/-! ## Taking a chain apart -/

/-- The operators that must not be of the level at which a chain is split: those behind the one at
which it is, where the level associates to the left, and those before it for powers. -/
def rivals (level : Level) (before after : Links) : Links :=
  if level = .power then before else after

/-- The tree is what splitting the chain leaves: at a loosest operator, then each side of it. -/
inductive Splits : Expr → Links → Expr → Prop
  | operand (x : Expr) : Splits x [] x
  | split {first y left right : Expr} {op : BinaryOp} {before after : Links}
      (hloosest : ∀ link ∈ before ++ after, rank link.1.level ≤ rank op.level)
      (hrivals : ∀ link ∈ rivals op.level before after, link.1.level ≠ op.level)
      (hleft : Splits first before left) (hright : Splits y after right) :
      Splits first (before ++ (op, y) :: after) (.binary op left right)

/-! ## Passes -/

/-- The pass of a level. -/
def join (level : Level) (chain : Expr × Links) : Expr × Links :=
  if level = .power then joinRight level chain.1 chain.2 else joinLeft level chain.1 chain.2

/-- The passes of some levels in turn. -/
def joinAll (levels : List Level) (chain : Expr × Links) : Expr × Links :=
  levels.foldl (fun chain level => join level chain) chain

/-- All levels, the tightest first. -/
def allLevels : List Level := .power :: leftLevels

variable {first y : Expr} {op : BinaryOp} {ls before after : Links} {level : Level}
  {levels : List Level}

theorem joinLevels_eq (h : .power ∉ levels) (chain : Expr × Links) :
    joinLevels levels chain = joinAll levels chain := by
  induction levels generalizing chain with
  | nil => rfl
  | cons level levels ih =>
    obtain ⟨hlevel, hlevels⟩ := List.ne_and_not_mem_of_not_mem_cons h
    rw [joinLevels, ih hlevels, joinAll, joinAll, List.foldl_cons, join, if_neg (Ne.symm hlevel)]

theorem toExpr_eq (first : Expr) (ls : Links) :
    toExpr first ls = (joinAll allLevels (first, ls)).1 := by
  rw [toExpr, joinLevels_eq (by decide), allLevels, joinAll, joinAll, List.foldl_cons, join,
    if_pos rfl]

theorem join_nil (level : Level) (x : Expr) : join level (x, []) = (x, []) := by
  rw [join]
  split <;> rfl

theorem joinAll_nil (levels : List Level) (x : Expr) : joinAll levels (x, []) = (x, []) := by
  induction levels with
  | nil => rfl
  | cons level levels ih => rw [joinAll, List.foldl_cons, join_nil]; exact ih

theorem joinLeft_cons_ne (h : op.level ≠ level) :
    joinLeft level first ((op, y) :: ls) =
      (first, (op, (joinLeft level y ls).1) :: (joinLeft level y ls).2) := by
  rw [joinLeft, if_neg h]

theorem joinRight_cons_ne (h : op.level ≠ level) :
    joinRight level first ((op, y) :: ls) =
      (first, (op, (joinRight level y ls).1) :: (joinRight level y ls).2) :=
  if_neg h

/-- A pass leaves the operators of the other levels, in their order. -/
theorem ops_join (level : Level) (chain : Expr × Links) :
    (join level chain).2.map Prod.fst =
      (chain.2.map Prod.fst).filter fun op => op.level ≠ level := by
  obtain ⟨first, ls⟩ := chain
  rw [join]
  split
  all_goals
    induction ls generalizing first with
    | nil => rfl
    | cons link ls ih =>
      obtain ⟨op, y⟩ := link
      by_cases h : op.level = level
      · simp [joinLeft, joinRight, h, ih]
      · simp [joinLeft_cons_ne h, joinRight_cons_ne h, h, ih]

theorem ops_joinAll (levels : List Level) (chain : Expr × Links) :
    (joinAll levels chain).2.map Prod.fst =
      (chain.2.map Prod.fst).filter fun op => op.level ∉ levels := by
  induction levels generalizing chain with
  | nil => exact (List.filter_eq_self.mpr fun op _ => by simp).symm
  | cons level levels ih =>
    rw [joinAll, List.foldl_cons, ← joinAll, ih, ops_join, List.filter_filter]
    congr 1
    funext op
    simp [Bool.and_comm]

/-- The pass of another level works on both sides of an operator alone. -/
theorem join_append (h : op.level ≠ level) (first y : Expr) (before after : Links) :
    join level (first, before ++ (op, y) :: after) =
      ((join level (first, before)).1, (join level (first, before)).2 ++
        (op, (join level (y, after)).1) :: (join level (y, after)).2) := by
  simp only [join]
  split
  all_goals
    induction before generalizing first with
    | nil => simp [joinLeft_cons_ne h, joinRight_cons_ne h, joinLeft, joinRight]
    | cons link before ih =>
      obtain ⟨op', x⟩ := link
      by_cases h' : op'.level = level
      · simp [joinLeft, joinRight, h', ih]
      · simp [joinLeft_cons_ne h', joinRight_cons_ne h', ih]

theorem joinAll_append (h : op.level ∉ levels) (first y : Expr) (before after : Links) :
    joinAll levels (first, before ++ (op, y) :: after) =
      ((joinAll levels (first, before)).1, (joinAll levels (first, before)).2 ++
        (op, (joinAll levels (y, after)).1) :: (joinAll levels (y, after)).2) := by
  induction levels generalizing first y before after with
  | nil => rfl
  | cons level levels ih =>
    obtain ⟨hlevel, hlevels⟩ := List.ne_and_not_mem_of_not_mem_cons h
    simp only [joinAll, List.foldl_cons] at ih ⊢
    rw [join_append hlevel, ih hlevels]

/-! ## The pass of the loosest level -/

/-- The last operator of a level that associates to the left is joined last. -/
theorem join_concat (hpower : op.level ≠ .power)
    (hbefore : ∀ link ∈ before, link.1.level = op.level) :
    join op.level (first, before ++ [(op, y)]) =
      (.binary op (join op.level (first, before)).1 y, []) := by
  simp only [join, if_neg hpower]
  induction before generalizing first with
  | nil => simp [joinLeft]
  | cons link before ih =>
    obtain ⟨hlink, hbefore⟩ := List.forall_mem_cons.mp hbefore
    simp [joinLeft, hlink, ih hbefore]

/-- The first power is joined last. -/
theorem join_cons_power (hpower : op.level = .power)
    (hafter : ∀ link ∈ after, link.1.level = op.level) :
    join op.level (first, (op, y) :: after) =
      (.binary op first (join op.level (y, after)).1, []) := by
  have hnil : (join op.level (y, after)).2 = [] := by
    rw [← List.map_eq_nil_iff, ops_join, List.filter_eq_nil_iff]
    intro op' hop'
    obtain ⟨link, hlink, rfl⟩ := List.mem_map.mp hop'
    simp [hafter link hlink]
  simp only [join, if_pos hpower] at hnil ⊢
  calc joinRight op.level first ((op, y) :: after)
      = (.binary op first (joinRight op.level y after).1, (joinRight op.level y after).2) :=
        if_pos rfl
    _ = _ := by rw [hnil]

/-- The passes of the tighter levels come before the pass of a level. -/
theorem allLevels_split (level : Level) :
    ∃ tight loose, allLevels = tight ++ level :: loose ∧ ∀ m, m ∈ tight ↔ rank m < rank level := by
  refine ⟨allLevels.takeWhile (· ≠ level), (allLevels.dropWhile (· ≠ level)).tail, ?_, fun m => ?_⟩
  · cases level <;> rfl
  · cases level <;> cases m <;> decide

section Loosest

variable {tight loose : List Level}

/-- Where no operator is looser than a level, the passes of the tighter levels leave operators of
the level only. -/
theorem level_of_mem_joinAll (htight : ∀ m, m ∈ tight ↔ rank m < rank level)
    (hls : ∀ link ∈ ls, rank link.1.level ≤ rank level) {link : BinaryOp × Expr}
    (h : link ∈ (joinAll tight (first, ls)).2) :
    link.1.level = level ∧ ∃ link' ∈ ls, link'.1 = link.1 := by
  have hop : link.1 ∈ (joinAll tight (first, ls)).2.map Prod.fst := List.mem_map_of_mem h
  rw [ops_joinAll, List.mem_filter] at hop
  obtain ⟨hop, hnot⟩ := hop
  obtain ⟨link', hlink', heq⟩ := List.mem_map.mp hop
  have hle := hls link' hlink'
  rw [decide_eq_true_eq, htight] at hnot
  rw [heq] at hle
  exact ⟨eq_of_rank (by omega), link', hlink', heq⟩

/-- Such a chain is one tree after the pass of the level. -/
theorem toExpr_of_loosest (hlevels : allLevels = tight ++ level :: loose)
    (htight : ∀ m, m ∈ tight ↔ rank m < rank level)
    (hls : ∀ link ∈ ls, rank link.1.level ≤ rank level) :
    join level (joinAll tight (first, ls)) = (toExpr first ls, []) := by
  have hnil : (join level (joinAll tight (first, ls))).2 = [] := by
    rw [← List.map_eq_nil_iff, ops_join, List.filter_eq_nil_iff]
    intro op hop
    obtain ⟨link, hlink, rfl⟩ := List.mem_map.mp hop
    simp [(level_of_mem_joinAll htight hls hlink).1]
  have heq : join level (joinAll tight (first, ls)) =
      ((join level (joinAll tight (first, ls))).1, []) := Prod.ext rfl hnil
  have hall : joinAll allLevels (first, ls) =
      joinAll loose (join level (joinAll tight (first, ls))) := by
    rw [hlevels, joinAll, List.foldl_append, List.foldl_cons]
    rfl
  rw [toExpr_eq, hall, heq, joinAll_nil]

end Loosest

/-- A loosest operator without rivals is at the top of the tree. -/
theorem toExpr_split (hloosest : ∀ link ∈ before ++ after, rank link.1.level ≤ rank op.level)
    (hrivals : ∀ link ∈ rivals op.level before after, link.1.level ≠ op.level) :
    toExpr first (before ++ (op, y) :: after) =
      .binary op (toExpr first before) (toExpr y after) := by
  obtain ⟨hbefore, hafter⟩ := List.forall_mem_append.mp hloosest
  obtain ⟨tight, loose, hlevels, htight⟩ := allLevels_split op.level
  have hwhole : ∀ link ∈ before ++ (op, y) :: after, rank link.1.level ≤ rank op.level :=
    List.forall_mem_append.mpr ⟨hbefore, List.forall_mem_cons.mpr ⟨Nat.le_refl _, hafter⟩⟩
  have hop : op.level ∉ tight := fun h => Nat.lt_irrefl _ ((htight _).mp h)
  have hleft : join op.level (joinAll tight (first, before)) = (toExpr first before, []) :=
    toExpr_of_loosest hlevels htight hbefore
  have hright : join op.level (joinAll tight (y, after)) = (toExpr y after, []) :=
    toExpr_of_loosest hlevels htight hafter
  suffices h : join op.level (joinAll tight (first, before ++ (op, y) :: after)) =
      (.binary op (toExpr first before) (toExpr y after), []) by
    rw [toExpr_of_loosest hlevels htight hwhole] at h
    exact (Prod.mk.inj h).1
  rw [joinAll_append hop]
  by_cases hpower : op.level = .power
  · -- Nothing is tighter than powers, so that nothing stands before the first one.
    have hnil : before = [] := by
      rw [rivals, if_pos hpower] at hrivals
      refine List.eq_nil_iff_forall_not_mem.mpr fun link hlink => hrivals link hlink ?_
      have hle := hbefore link hlink
      rw [hpower] at hle ⊢
      exact eq_of_rank (Nat.le_zero.mp hle)
    subst hnil
    rw [joinAll_nil, join_nil] at hleft
    have hlevel : ∀ link ∈ (joinAll tight (y, after)).2, link.1.level = op.level :=
      fun _ hlink => (level_of_mem_joinAll htight hafter hlink).1
    rw [joinAll_nil, List.nil_append, join_cons_power hpower hlevel, hright,
      ← (Prod.mk.inj hleft).1]
  · have hnil : (joinAll tight (y, after)).2 = [] := by
      rw [rivals, if_neg hpower] at hrivals
      refine List.eq_nil_iff_forall_not_mem.mpr fun link hlink => ?_
      obtain ⟨hlevel, link', hlink', heq⟩ := level_of_mem_joinAll htight hafter hlink
      exact hrivals link' hlink' (heq ▸ hlevel)
    have hy : joinAll tight (y, after) = (toExpr y after, []) := by
      rw [show joinAll tight (y, after) = ((joinAll tight (y, after)).1, []) from
        Prod.ext rfl hnil, join_nil] at hright
      exact Prod.ext (Prod.mk.inj hright).1 hnil
    have hlevel : ∀ link ∈ (joinAll tight (first, before)).2, link.1.level = op.level :=
      fun _ hlink => (level_of_mem_joinAll htight hbefore hlink).1
    rw [hy, join_concat hpower hlevel, hleft]

/-! ## The tree of a chain -/

/-- A chain with an operator can be split at one. -/
theorem exists_split (hls : ls ≠ []) :
    ∃ before op y after, ls = before ++ (op, y) :: after ∧
      (∀ link ∈ before ++ after, rank link.1.level ≤ rank op.level) ∧
      ∀ link ∈ rivals op.level before after, link.1.level ≠ op.level := by
  induction ls with
  | nil => exact absurd rfl hls
  | cons link ls ih =>
    obtain ⟨op', y'⟩ := link
    by_cases hnil : ls = []
    · subst hnil
      exact ⟨[], op', y', [], rfl, by simp, by simp [rivals]⟩
    obtain ⟨before, op, y, after, rfl, hloosest, hrivals⟩ := ih hnil
    obtain ⟨hbefore, hafter⟩ := List.forall_mem_append.mp hloosest
    by_cases hhead : rank op.level ≤ rank op'.level ∧ (op'.level = op.level → op.level = .power)
    · -- The first operator is looser than all others, or it is the first of the powers.
      obtain ⟨hle, hpower⟩ := hhead
      have hls' : ∀ link ∈ before ++ (op, y) :: after, rank link.1.level ≤ rank op.level :=
        List.forall_mem_append.mpr ⟨hbefore, List.forall_mem_cons.mpr ⟨Nat.le_refl _, hafter⟩⟩
      refine ⟨[], op', y', _, rfl, fun link hlink => Nat.le_trans (hls' link hlink) hle, ?_⟩
      rw [rivals]
      split
      · simp
      · rename_i hne
        intro link hlink heq
        have hle' := hls' link hlink
        rw [heq] at hle'
        have hsame : op'.level = op.level := eq_of_rank (by omega)
        exact hne (hsame.trans (hpower hsame))
    · have hle : rank op'.level ≤ rank op.level ∧ op.level ≠ .power := by
        by_cases hlt : rank op'.level < rank op.level
        · exact ⟨Nat.le_of_lt hlt, fun h => by rw [h] at hlt; exact Nat.not_lt_zero _ hlt⟩
        · have hsame : op'.level = op.level ∧ op.level ≠ .power := by
            simpa [Nat.le_of_not_lt hlt] using hhead
          exact ⟨Nat.le_of_eq (congrArg rank hsame.1), hsame.2⟩
      refine ⟨(op', y') :: before, op, y, after, rfl, ?_, ?_⟩
      · exact List.forall_mem_cons.mpr ⟨hle.1, hloosest⟩
      · rw [rivals, if_neg hle.2] at hrivals ⊢
        exact hrivals

/-- A chain is split into its tree. -/
theorem splits_toExpr (first : Expr) (ls : Links) : Splits first ls (toExpr first ls) := by
  by_cases hls : ls = []
  · subst hls
    exact .operand first
  · obtain ⟨before, op, y, after, rfl, hloosest, hrivals⟩ := exists_split hls
    rw [toExpr_split hloosest hrivals]
    exact .split hloosest hrivals (splits_toExpr first before) (splits_toExpr y after)
termination_by ls.length
decreasing_by all_goals subst_vars; simp only [List.length_append, List.length_cons]; omega

/-- A chain is split into one tree only. -/
theorem Splits.unique {x : Expr} (h : Splits first ls x) : x = toExpr first ls := by
  induction h with
  | operand => rfl
  | split hloosest hrivals _ _ ihleft ihright =>
    rw [toExpr_split hloosest hrivals, ihleft, ihright]

end Chain

namespace Parser

/-! ## Chains in source text -/

/-- The reader of operands reads the tokens as the expression, all of them, and they do not end in a
lambda or a conditional without parentheses around it. -/
def IsOperand (ts : List Token) (x : Expr) : Prop :=
  (∃ rest, Gives (operand (ts ++ rest)) x rest) ∧ ¬ Spells ts (.operand x true)

/-- The tokens are binary operators, each with an operand behind it. -/
inductive IsLinks : List Token → Links → Prop
  | nil : IsLinks [] []
  | cons {t : Token} {ts us : List Token} {op : BinaryOp} {x : Expr} {ls : Links}
      (ht : t.binaryOp? = some op) (hx : IsOperand ts x) (hls : IsLinks us ls) :
      IsLinks (t :: (ts ++ us)) ((op, x) :: ls)

/-- The token may follow an expression that is part of something larger, or all of it. -/
def Closes (t : Token) : Prop :=
  t.isEnd ∨ t.isSeparator ∨ t.is .delimiter ")" ∨ t.is .delimiter "," ∨ t.is .keyword "then" ∨
    t.is .keyword "else"

theorem Closes.ends {t : Token} (h : Closes t) (rest : List Token) : Ends (t :: rest) := by
  have hstmt (h : t.isEnd ∨ t.isSeparator) : Ends (t :: rest) :=
    EndsStmt.ends fun u hu => by cases hu; exact h
  rcases h with h | h | h | h | h | h
  · exact hstmt (.inl h)
  · exact hstmt (.inr h)
  all_goals exact ends_of_is h

variable {ts us : List Token} {x first : Expr} {ls : Links}

theorem IsOperand.spells (h : IsOperand ts x) : Spells ts (.operand x false) := by
  obtain ⟨⟨rest, hx⟩, hopen⟩ := h
  obtain ⟨us, o, heq, hus, -⟩ := operand_sound hx
  obtain rfl := List.append_cancel_right heq
  cases o with
  | false => exact hus
  | true => exact absurd hus hopen

/-- A name is an operand. -/
theorem isOperand_name {t : Token} (ht : t.kind = .identifier) : IsOperand [t] (.var t.text) := by
  refine ⟨⟨[], ?_⟩, fun hspells => ?_⟩
  · rw [List.append_nil, operand_of_name ht]
    exact primary_var ht fun t ht => by cases ht
  · generalize hφ : Phrase.operand (.var t.text) true = φ at hspells
    generalize [t] = us at hspells
    cases hspells <;> simp at hφ

/-- An operand with an operator in front is an operand again. -/
theorem IsOperand.unary {t : Token} {op : UnaryOp} (ht : t.prefixOp? = some op)
    (h : IsOperand ts x) : IsOperand (t :: ts) (.unary op x) := by
  obtain ⟨⟨rest, hx⟩, hopen⟩ := h
  refine ⟨⟨rest, operand_unary ht hx⟩, fun hspells => hopen ?_⟩
  generalize hφ : Phrase.operand (.unary op x) true = φ at hspells
  generalize hus : t :: ts = us at hspells
  cases hspells <;> cases hφ
  -- What is open behind an operator is open there.
  case unary h => exact (List.cons.inj hus).2 ▸ h

theorem IsLinks.spells (h : IsLinks ts ls) : Spells ts (.links ls) := by
  induction h with
  | nil => exact .nil
  | cons ht hx _ ih => exact .cons ht hx.spells ih fun h => by cases h

/-- A chain of operands is read to its end, as the tree that splitting it leaves. An operator in
front of an operand belongs to that operand, whatever comes behind it. -/
theorem expr_of_chain {t : Token} {rest : List Token} (hfirst : IsOperand us first)
    (hls : IsLinks ts ls) (ht : Closes t) :
    ∃ x, Gives (expr (us ++ ts ++ t :: rest)) x (t :: rest) ∧ Chain.Splits first ls x ∧
      (∀ y, Chain.Splits first ls y → y = x) ∧
      ∀ (u : Token) (op : UnaryOp), u.prefixOp? = some op →
        IsOperand (u :: us) (.unary op first) := by
  have hspells : Spells (us ++ ts) (.expr (Chain.toExpr first ls)) :=
    .expr hfirst.spells hls.spells fun h => by cases h
  exact ⟨Chain.toExpr first ls, expr_complete hspells (ht.ends rest), Chain.splits_toExpr first ls,
    fun y hy => hy.unique, fun u op hu => hfirst.unary hu⟩

/-- Powers of names in front of a product. -/
theorem expr_of_chain_powers :
    ∃ x, Gives (expr [⟨.identifier, "a", 0⟩, ⟨.operator, "^", 1⟩, ⟨.identifier, "b", 2⟩,
        ⟨.operator, "^", 3⟩, ⟨.identifier, "c", 4⟩, ⟨.operator, "*", 5⟩, ⟨.identifier, "d", 6⟩,
        Token.endAt 7]) x [Token.endAt 7] ∧
      x = .binary .mul (.binary .pow (.var "a") (.binary .pow (.var "b") (.var "c")))
        (.var "d") := by
  have hlinks : IsLinks [⟨.operator, "^", 1⟩, ⟨.identifier, "b", 2⟩, ⟨.operator, "^", 3⟩,
      ⟨.identifier, "c", 4⟩, ⟨.operator, "*", 5⟩, ⟨.identifier, "d", 6⟩]
      [(.pow, .var "b"), (.pow, .var "c"), (.mul, .var "d")] :=
    .cons (by decide) (isOperand_name rfl) (.cons (by decide) (isOperand_name rfl)
      (.cons (by decide) (isOperand_name rfl) .nil))
  have hend : Closes (Token.endAt 7) := .inl rfl
  have hfirst : IsOperand [⟨.identifier, "a", 0⟩] (.var "a") := isOperand_name rfl
  obtain ⟨x, hx, hsplits, -⟩ := @expr_of_chain _ _ _ _ _ [] hfirst hlinks hend
  exact ⟨x, hx, hsplits.unique⟩

end Parser

end Abacus
