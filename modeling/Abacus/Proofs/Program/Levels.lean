import Abacus.Proofs.Program.Outcomes
import Abacus.Proofs.Program.Precedence

/-!
# Chains level by level

The parser reads a whole chain of operands and makes its tree afterwards. The same tree comes out
where one level of precedence is read at a time: what stands between the operators of a level is
what the next tighter level reads, and each operator is joined as soon as its right operand is read.

* `levelOutcome l`: what a chain comes to of which only operators are read that are not looser than
  `l`. For the loosest level this is an expression (`levelOutcome_or`).
* `moreOutcome l left`: what comes of `left` with the operators of the level behind it.
* `levelOutcome_left`, `moreOutcome_cons`, `levelOutcome_power`: the equations of reading level by
  level. They rest on one fact about trees, that an operator of a level may be joined before the
  chain goes on (`Chain.toExpr_joined`).
-/

namespace Abacus

open Grammar (rank eq_of_rank rank_le_or)

/-- The next tighter level. -/
def Level.tighter : Level → Level
  | .or => .and
  | .and => .equality
  | .equality => .comparison
  | .comparison => .additive
  | .additive => .multiplicative
  | .multiplicative | .power => .power

theorem Level.rank_tighter {l : Level} (hl : l ≠ .power) : rank l = rank l.tighter + 1 := by
  cases l
  case power => exact absurd rfl hl
  all_goals rfl

/-- The operator of the level that a token stands for. -/
def Token.linkOf? (t : Token) (l : Level) : Option BinaryOp :=
  t.binaryOp?.filter fun op => op.level = l

theorem Token.linkOf?_eq_some {t : Token} {l : Level} {op : BinaryOp} :
    t.linkOf? l = some op ↔ t.binaryOp? = some op ∧ op.level = l := by
  simp [linkOf?, Option.filter_eq_some_iff]

theorem Token.isEnd_of_linkOf? {t : Token} {l : Level} {op : BinaryOp} (h : t.linkOf? l = some op) :
    t.isEnd = false :=
  (Bool.or_eq_false_iff.mp (Token.isBreak_of_binaryOp? (Token.linkOf?_eq_some.mp h).1)).1

theorem Token.isEnd_of_name {t : Token} (h : t.isName) : t.isEnd = false :=
  (Bool.or_eq_false_iff.mp (Token.isBreak_of_name h)).1

/-! ## Trees -/

namespace Chain

theorem toExpr_nil (x : Expr) : toExpr x [] = x := rfl

/-- A chain is joined up to an operator of its loosest level, if that associates to the left, before
the rest is. -/
theorem toExpr_append {first : Expr} {l : Level} {before ls : Links} (hl : l ≠ .power)
    (hbefore : ∀ link ∈ before, rank link.1.level ≤ rank l)
    (hls : ∀ link ∈ ls, rank link.1.level ≤ rank l) (hhead : ∀ link ∈ ls.head?, link.1.level = l) :
    toExpr first (before ++ ls) = toExpr (toExpr first before) ls := by
  by_cases hnil : ls = []
  · subst hnil
    rw [List.append_nil, toExpr_nil]
  · obtain ⟨middle, op, y, after, rfl, hloosest, hrivals⟩ := exists_split hnil
    obtain ⟨hmiddle, hafter⟩ := List.forall_mem_append.mp hls
    obtain ⟨hop, hafter⟩ := List.forall_mem_cons.mp hafter
    -- What follows starts with the level, so that it is split at an operator of the level.
    have hlevel : op.level = l := by
      cases middle with
      | nil => exact hhead _ rfl
      | cons link middle =>
        have hge := hloosest link (by simp)
        rw [hhead link rfl] at hge
        exact eq_of_rank (Nat.le_antisymm hop hge)
    have hrivals' : ∀ link ∈ rivals op.level (before ++ middle) after, link.1.level ≠ op.level := by
      rwa [rivals, if_neg (hlevel ▸ hl)] at hrivals ⊢
    have hwhole : ∀ link ∈ before ++ middle ++ after, rank link.1.level ≤ rank op.level := by
      rw [hlevel]
      exact List.forall_mem_append.mpr ⟨List.forall_mem_append.mpr ⟨hbefore, hmiddle⟩, hafter⟩
    have hhead' : ∀ link ∈ middle.head?, link.1.level = l := by
      cases middle with
      | nil => exact fun link hlink => by cases hlink
      | cons _ _ => exact hhead
    rw [← List.append_assoc, toExpr_split hwhole hrivals', toExpr_split hloosest hrivals,
      toExpr_append hl hbefore hmiddle hhead']
termination_by ls.length
decreasing_by subst_vars; simp only [List.length_append, List.length_cons]; omega

/-- An operator joins what is in front of it with the tighter operators behind it. -/
theorem toExpr_cons {left x : Expr} {op : BinaryOp} {ls : Links} (hop : op.level ≠ .power)
    (hls : ∀ link ∈ ls, rank link.1.level < rank op.level) :
    toExpr left ((op, x) :: ls) = .binary op left (toExpr x ls) := by
  have hrivals : ∀ link ∈ rivals op.level [] ls, link.1.level ≠ op.level := by
    rw [rivals, if_neg hop]
    exact fun link hlink heq => Nat.lt_irrefl _ (heq ▸ hls link hlink)
  have htop : toExpr left ([] ++ (op, x) :: ls) = .binary op (toExpr left []) (toExpr x ls) :=
    toExpr_split (fun link hlink => Nat.le_of_lt (hls link hlink)) hrivals
  exact htop

/-- The first power joins what is in front of it with all powers behind it. -/
theorem toExpr_cons_power {left x : Expr} {op : BinaryOp} {ls : Links} (hop : op.level = .power)
    (hls : ∀ link ∈ ls, rank link.1.level ≤ rank .power) :
    toExpr left ((op, x) :: ls) = .binary op left (toExpr x ls) := by
  have hrivals : ∀ link ∈ rivals op.level [] ls, link.1.level ≠ op.level := by
    rw [rivals, if_pos hop]
    exact fun link hlink => by cases hlink
  have htop : toExpr left ([] ++ (op, x) :: ls) = .binary op (toExpr left []) (toExpr x ls) :=
    toExpr_split (hop ▸ hls) hrivals
  exact htop

end Chain

namespace Parser

/-- Where a chain of readings succeeds, its first part does. -/
theorem ok_of_bind {α β : Type} {o : Except ParseError α} {f : α → Except ParseError β} {b : β}
    (h : o >>= f = .ok b) : ∃ a, o = .ok a ∧ f a = .ok b := by
  cases o with
  | error e => cases h
  | ok a => exact ⟨a, rfl, h⟩

/-! ## Readings of a level -/

/-- Reads operators that are not looser than the level, each with the operand behind it. -/
def linksWithin (l : Level) (ts : List Token) : Except ParseError (Links × List Token) :=
  match ts with
  | [] => .ok ([], [])
  | t :: us =>
    match t.binaryOp? with
    | none => .ok ([], t :: us)
    | some op =>
      if rank op.level ≤ rank l then
        match operand us with
        | .error e => .error e
        | .ok ⟨x, rest, _⟩ =>
          match linksWithin l rest with
          | .error e => .error e
          | .ok (ls, rest') => .ok ((op, x) :: ls, rest')
      else .ok ([], t :: us)
termination_by ts.length
decreasing_by exact length_lt_cons t ‹rest.length < us.length›

/-- Reads operators that are not looser than the level if an operator of the level comes first, and
nothing otherwise. -/
def linksFrom (l : Level) : List Token → Except ParseError (Links × List Token)
  | [] => .ok ([], [])
  | t :: us => if (t.linkOf? l).isSome then linksWithin l (t :: us) else .ok ([], t :: us)

/-- What a chain comes to of which only operators are read that are not looser than the level. -/
def levelOutcome (l : Level) (ts : List Token) : Except ParseError (Expr × List Token) := do
  let (first, us) ← outcome (operand ts)
  let (ls, rest) ← linksWithin l us
  .ok (Chain.toExpr first ls, rest)

/-- What comes of `left` with the operators of the level that follow it. -/
def moreOutcome (l : Level) (left : Expr) (ts : List Token) :
    Except ParseError (Expr × List Token) := do
  let (ls, rest) ← linksFrom l ts
  .ok (Chain.toExpr left ls, rest)

section Readings

variable {l : Level} {t : Token} {us ts rest : List Token} {op : BinaryOp} {ls : Links}

theorem linksWithin_nil (l : Level) : linksWithin l [] = .ok ([], []) := by
  rw [linksWithin]

theorem linksWithin_none (h : t.binaryOp? = none) :
    linksWithin l (t :: us) = .ok ([], t :: us) := by
  rw [linksWithin, h]

theorem linksWithin_looser (h : t.binaryOp? = some op) (hop : ¬ rank op.level ≤ rank l) :
    linksWithin l (t :: us) = .ok ([], t :: us) := by
  rw [linksWithin, h]
  exact if_neg hop

theorem linksWithin_cons (h : t.binaryOp? = some op) (hop : rank op.level ≤ rank l) :
    linksWithin l (t :: us) = (do
      let (x, us) ← outcome (operand us)
      let (ls, rest) ← linksWithin l us
      .ok ((op, x) :: ls, rest)) := by
  rw [linksWithin, h]
  simp only [hop, ↓reduceIte, outcome, Except.map, bind, Except.bind]
  rcases operand us with e | ⟨x, us₁, shorter⟩
  · rfl
  simp only
  cases linksWithin l us₁ <;> rfl

/-- What is read are operators that are not looser than the level, and no tokens are added. -/
theorem linksWithin_spec {l : Level} {ts rest : List Token} {ls : Links}
    (h : linksWithin l ts = .ok (ls, rest)) :
    (∀ link ∈ ls, rank link.1.level ≤ rank l) ∧ rest.length ≤ ts.length := by
  cases ts with
  | nil =>
    rw [linksWithin_nil] at h
    cases h
    exact ⟨by simp, Nat.le_refl _⟩
  | cons t us =>
    cases hop : t.binaryOp? with
    | none =>
      rw [linksWithin_none hop] at h
      cases h
      exact ⟨by simp, Nat.le_refl _⟩
    | some op =>
      by_cases hle : rank op.level ≤ rank l
      · rw [linksWithin_cons hop hle] at h
        obtain ⟨⟨x, us₁⟩, hx, h⟩ := ok_of_bind h
        obtain ⟨⟨ls₁, rest₁⟩, hls, h⟩ := ok_of_bind h
        cases h
        have hlt : us₁.length < us.length := length_lt_of_outcome hx
        obtain ⟨hall, hlen⟩ := linksWithin_spec hls
        refine ⟨List.forall_mem_cons.mpr ⟨hle, hall⟩, ?_⟩
        rw [List.length_cons]
        omega
      · rw [linksWithin_looser hop hle] at h
        cases h
        exact ⟨by simp, Nat.le_refl _⟩
termination_by ts.length
decreasing_by subst_vars; rw [List.length_cons]; omega

theorem linksFrom_of_linkOf? (h : t.linkOf? l = some op) :
    linksFrom l (t :: us) = linksWithin l (t :: us) := by
  rw [linksFrom, h]
  rfl

theorem linksFrom_of_none (h : t.linkOf? l = none) : linksFrom l (t :: us) = .ok ([], t :: us) := by
  rw [linksFrom, h]
  rfl

/-- What is read behind an expression of the level starts with an operator of the level. -/
theorem linksFrom_spec (h : linksFrom l ts = .ok (ls, rest)) :
    (∀ link ∈ ls, rank link.1.level ≤ rank l) ∧ (∀ link ∈ ls.head?, link.1.level = l) ∧
      rest.length ≤ ts.length := by
  rcases ts with - | ⟨t, us⟩
  · cases h
    exact ⟨by simp, by simp, Nat.le_refl _⟩
  cases hlink : t.linkOf? l with
  | none =>
    rw [linksFrom_of_none hlink] at h
    cases h
    exact ⟨by simp, by simp, Nat.le_refl _⟩
  | some op =>
    rw [linksFrom_of_linkOf? hlink] at h
    obtain ⟨hall, hlen⟩ := linksWithin_spec h
    obtain ⟨hop, hlevel⟩ := Token.linkOf?_eq_some.mp hlink
    refine ⟨hall, ?_, hlen⟩
    rw [linksWithin_cons hop (Nat.le_of_eq (congrArg rank hlevel))] at h
    obtain ⟨⟨x, us₁⟩, -, h⟩ := ok_of_bind h
    obtain ⟨⟨ls₁, rest₁⟩, -, h⟩ := ok_of_bind h
    cases h
    intro link hmem
    cases hmem
    exact hlevel

/-! ## Level by level -/

/-- What the next tighter level leaves is read from an operator of the level on. -/
theorem linksWithin_tighter {l : Level} (hl : l ≠ .power) (ts : List Token) :
    linksWithin l ts = (do
      let (ls₁, us) ← linksWithin l.tighter ts
      let (ls₂, rest) ← linksFrom l us
      .ok (ls₁ ++ ls₂, rest)) := by
  have hrank := Level.rank_tighter hl
  cases ts with
  | nil =>
    rw [linksWithin_nil, linksWithin_nil]
    rfl
  | cons t us =>
    -- The tighter links stand in front, so the operator in front decides: it is tighter than the
    -- level, of the level, or looser, and only the last two stop the inner loop.
    cases hop : t.binaryOp? with
    | none =>
      have hlink : t.linkOf? l = none := by simp [Token.linkOf?, hop]
      rw [linksWithin_none hop, linksWithin_none hop]
      simp only [bind, Except.bind, linksFrom_of_none hlink]
      rfl
    | some op =>
      by_cases htight : rank op.level ≤ rank l.tighter
      · rw [linksWithin_cons hop htight, linksWithin_cons hop (by omega)]
        cases hx : outcome (operand us) with
        | error e => rfl
        | ok r =>
          obtain ⟨x, us₁⟩ := r
          have hlt : us₁.length < us.length := length_lt_of_outcome hx
          simp only [bind, Except.bind]
          -- The recursion is behind an operand, on fewer tokens.
          rw [linksWithin_tighter hl us₁]
          simp only [bind, Except.bind]
          cases linksWithin l.tighter us₁ with
          | error e => rfl
          | ok r =>
            simp only
            cases linksFrom l r.2 <;> rfl
      · rw [linksWithin_looser hop htight]
        simp only [bind, Except.bind]
        by_cases hlevel : op.level = l
        · rw [linksFrom_of_linkOf? (Token.linkOf?_eq_some.mpr ⟨hop, hlevel⟩)]
          cases linksWithin l (t :: us) <;> rfl
        · have hlink : t.linkOf? l = none := by simp [Token.linkOf?, hop, hlevel]
          have hne : rank op.level ≠ rank l := fun h => hlevel (eq_of_rank h)
          rw [linksWithin_looser hop (by omega), linksFrom_of_none hlink]
          rfl
termination_by ts.length
decreasing_by subst_vars; rw [List.length_cons]; omega

variable {left : Expr}

/-- The operators of a level join what the next tighter level reads. -/
theorem levelOutcome_left (hl : l ≠ .power) (ts : List Token) :
    levelOutcome l ts = (do
      let (left, us) ← levelOutcome l.tighter ts
      moreOutcome l left us) := by
  have hrank := Level.rank_tighter hl
  simp only [levelOutcome, moreOutcome, bind, Except.bind]
  cases outcome (operand ts) with
  | error e => rfl
  | ok r =>
    obtain ⟨first, us⟩ := r
    simp only
    rw [linksWithin_tighter hl us]
    simp only [bind, Except.bind]
    cases hls₁ : linksWithin l.tighter us with
    | error e => rfl
    | ok r =>
      obtain ⟨ls₁, us₁⟩ := r
      simp only
      cases hls₂ : linksFrom l us₁ with
      | error e => rfl
      | ok r =>
        obtain ⟨ls₂, rest⟩ := r
        obtain ⟨hall₁, -⟩ := linksWithin_spec hls₁
        obtain ⟨hall₂, hhead, -⟩ := linksFrom_spec hls₂
        have hjoin : Chain.toExpr first (ls₁ ++ ls₂) = Chain.toExpr (Chain.toExpr first ls₁) ls₂ :=
          Chain.toExpr_append hl (fun link hlink => by have := hall₁ link hlink; omega) hall₂ hhead
        simp only [hjoin]

theorem moreOutcome_none (h : t.linkOf? l = none) :
    moreOutcome l left (t :: us) = .ok (left, t :: us) := by
  rw [moreOutcome, linksFrom_of_none h]
  rfl

/-- A round of reading a level: an operator of it, what the next tighter level reads, and the two
joined before the next round. -/
theorem moreOutcome_cons (hl : l ≠ .power) (h : t.linkOf? l = some op) :
    moreOutcome l left (t :: us) = (do
      let (right, us) ← levelOutcome l.tighter us
      moreOutcome l (.binary op left right) us) := by
  have hrank := Level.rank_tighter hl
  obtain ⟨hop, rfl⟩ := Token.linkOf?_eq_some.mp h
  rw [moreOutcome, linksFrom_of_linkOf? h, linksWithin_cons hop (Nat.le_refl _)]
  -- Both sides read the same operand and links; what is left is that they group them alike.
  simp only [levelOutcome, moreOutcome, bind, Except.bind]
  cases outcome (operand us) with
  | error e => rfl
  | ok r =>
    obtain ⟨x, us₁⟩ := r
    simp only
    rw [linksWithin_tighter hl us₁]
    simp only [bind, Except.bind]
    cases hls₁ : linksWithin op.level.tighter us₁ with
    | error e => rfl
    | ok r =>
      obtain ⟨ls₁, us₂⟩ := r
      simp only
      cases hls₂ : linksFrom op.level us₂ with
      | error e => rfl
      | ok r =>
        obtain ⟨ls₂, rest⟩ := r
        obtain ⟨hall₁, -⟩ := linksWithin_spec hls₁
        obtain ⟨hall₂, hhead, -⟩ := linksFrom_spec hls₂
        have htight : ∀ link ∈ ls₁, rank link.1.level < rank op.level :=
          fun link hlink => by have := hall₁ link hlink; omega
        have hbefore : ∀ link ∈ (op, x) :: ls₁, rank link.1.level ≤ rank op.level :=
          List.forall_mem_cons.mpr
            ⟨Nat.le_refl _, fun link hlink => Nat.le_of_lt (htight link hlink)⟩
        -- The tighter links belong to the right operand, since the chain splits at its loosest
        -- links and these all have the level of the first operator.
        have hjoin : Chain.toExpr left ((op, x) :: (ls₁ ++ ls₂)) =
            Chain.toExpr (.binary op left (Chain.toExpr x ls₁)) ls₂ := by
          rw [← List.cons_append, Chain.toExpr_append hl hbefore hall₂ hhead,
            Chain.toExpr_cons hl htight]
        simp only [hjoin]

theorem linksWithin_power_none (h : t.linkOf? .power = none) :
    linksWithin .power (t :: us) = .ok ([], t :: us) := by
  cases hop : t.binaryOp? with
  | none => exact linksWithin_none hop
  | some op =>
    refine linksWithin_looser hop fun hle => ?_
    have hlevel : op.level = .power := eq_of_rank (Nat.le_zero.mp hle)
    rw [Token.linkOf?_eq_some.mpr ⟨hop, hlevel⟩] at h
    cases h

/-- A power takes all powers behind it as its right operand. -/
theorem levelOutcome_power (ts : List Token) :
    levelOutcome .power ts = (do
      let (base, us) ← outcome (operand ts)
      match us with
      | [] => .ok (base, [])
      | t :: us =>
        match t.linkOf? .power with
        | none => .ok (base, t :: us)
        | some op => (do
          let (exponent, rest) ← levelOutcome .power us
          .ok (.binary op base exponent, rest))) := by
  rw [levelOutcome]
  simp only [bind, Except.bind]
  cases outcome (operand ts) with
  | error e => rfl
  | ok r =>
    obtain ⟨base, us⟩ := r
    simp only
    rcases us with - | ⟨t, us⟩
    · rw [linksWithin_nil]
      rfl
    simp only
    cases hlink : t.linkOf? .power with
    | none =>
      rw [linksWithin_power_none hlink]
      rfl
    | some op =>
      obtain ⟨hop, hlevel⟩ := Token.linkOf?_eq_some.mp hlink
      rw [linksWithin_cons hop (Nat.le_of_eq (congrArg rank hlevel))]
      simp only [levelOutcome, bind, Except.bind]
      cases outcome (operand us) with
      | error e => rfl
      | ok r =>
        simp only
        cases hls : linksWithin .power r.2 with
        | error e => rfl
        | ok r' =>
          obtain ⟨hall, -⟩ := linksWithin_spec hls
          -- A power groups to the right, so all links behind the first belong to its exponent.
          have hjoin : Chain.toExpr base ((op, r.1) :: r'.1) =
              .binary op base (Chain.toExpr r.1 r'.1) := Chain.toExpr_cons_power hlevel hall
          simp only [hjoin]

/-- No operator is looser than the loosest level. -/
theorem linksWithin_or (ts : List Token) : linksWithin .or ts = linksOutcome ts := by
  cases ts with
  | nil => rw [linksWithin_nil, linksOutcome_nil]
  | cons t us =>
    rw [linksOutcome_cons]
    cases hop : t.binaryOp? with
    | none => exact linksWithin_none hop
    | some op =>
      rw [linksWithin_cons hop (rank_le_or _)]
      simp only [bind, Except.bind]
      cases hx : outcome (operand us) with
      | error e => rfl
      | ok r =>
        have hlt : r.2.length < us.length := length_lt_of_outcome hx
        simp only [linksWithin_or r.2]
termination_by ts.length
decreasing_by subst_vars; rw [List.length_cons]; omega

/-- An expression is a chain of the loosest level. -/
theorem levelOutcome_or (ts : List Token) : levelOutcome .or ts = outcome (expr ts) := by
  simp only [levelOutcome, linksWithin_or, outcome_expr]

/-- What a level reads is not empty. -/
theorem length_lt_of_levelOutcome {x : Expr} (h : levelOutcome l ts = .ok (x, rest)) :
    rest.length < ts.length := by
  obtain ⟨⟨first, us⟩, hx, h⟩ := ok_of_bind h
  obtain ⟨⟨ls, rest₁⟩, hls, h⟩ := ok_of_bind h
  cases h
  have hlt := length_lt_of_outcome hx
  obtain ⟨-, hle⟩ := linksWithin_spec hls
  omega

end Readings

end Parser

end Abacus
