import Abacus.Proofs.Program.Reading

/-!
# What is read is spelled

The converse of `readsBack_of_spells`: the tokens that the parser takes spell what it gives, and no
operator is left behind them.
-/

namespace Abacus

namespace Parser

theorem expect_ok {kind : TokenKind} {text : String} {ts rest : List Token} {t : Token}
    (h : Gives (expect kind text ts) t rest) : ts = t :: rest ∧ t.is kind text := by
  obtain ⟨_, h⟩ := h
  cases ts with
  | nil => cases h
  | cons u us =>
    rw [expect] at h
    split at h
    · rename_i hu
      cases h
      exact ⟨rfl, hu⟩
    · cases h

/-- What the reader of further parameters takes in is spelled by the list it gives. -/
theorem moreParams_sound {ts rest : List Token} {ps : List String}
    (h : Gives (moreParams ts) ps rest) : ∃ us, ts = us ++ rest ∧ SpellsMoreParams us ps := by
  obtain ⟨_, h⟩ := h
  match ts with
  | [] => cases h
  | [t] =>
    rw [moreParams] at h
    split at h <;> cases h
  | t :: u :: us =>
    rw [moreParams] at h
    split at h
    · rename_i ht
      split at h
      · rename_i hc
        split at h
        · cases h
        · rename_i hps
          cases h
          obtain ⟨vs, rfl, hvs⟩ := moreParams_sound ⟨_, hps⟩
          exact ⟨t :: u :: vs, rfl, .more ht hc hvs⟩
      · split at h
        · rename_i hr
          cases h
          exact ⟨[t, u], rfl, .last ht hr⟩
        · cases h
    · cases h

theorem params_sound {ts rest : List Token} {ps : List String} (h : Gives (params ts) ps rest) :
    ∃ us, ts = us ++ rest ∧ SpellsParams us ps := by
  obtain ⟨_, h⟩ := h
  cases ts with
  | nil => cases h
  | cons t us =>
    rw [params] at h
    split at h
    · rename_i hr
      cases h
      exact ⟨[t], rfl, .none hr⟩
    · obtain ⟨vs, hvs, hps⟩ := moreParams_sound ⟨_, h⟩
      exact ⟨vs, hvs, .some hps⟩

/-- What the parser reads as an operand that starts with the token `t` and has no operator in front:
one constructor for each way to succeed, with the readings that it takes. -/
inductive ReadsPrimary (t : Token) (us : List Token) : Expr → List Token → Prop
  | number {v : Float} (ht : t.kind = .number) (hv : Number.read? t.text = some v) :
      ReadsPrimary t us (.number v) us
  | conditional {a e : Token} {us₁ us₂ rest : List Token} {x y z : Expr}
      (hi : t.is .keyword "if") (hx : Gives (expr us) x (a :: us₁)) (ha : a.is .keyword "then")
      (hy : Gives (expr us₁) y (e :: us₂)) (he : e.is .keyword "else")
      (hz : Gives (expr us₂) z rest) : ReadsPrimary t us (.conditional x y z) rest
  | var (ht : t.kind = .identifier) : ReadsPrimary t us (.var t.text) us
  | arrow {a : Token} {vs rest : List Token} {x : Expr} (ht : t.kind = .identifier)
      (hus : us = a :: vs) (ha : a.is .operator "=>") (hx : Gives (expr vs) x rest) :
      ReadsPrimary t us (.lambda [t.text] x) rest
  | call {l : Token} {vs rest : List Token} {xs : List Expr} (ht : t.kind = .identifier)
      (hus : us = l :: vs) (hl : l.is .delimiter "(") (hxs : Gives (args vs) xs rest) :
      ReadsPrimary t us (.call t.text xs) rest
  | lambda {a : Token} {us₁ rest : List Token} {ps : List String} {x : Expr}
      (hl : t.is .delimiter "(") (hps : Gives (params us) ps (a :: us₁)) (ha : a.is .operator "=>")
      (hx : Gives (expr us₁) x rest) : ReadsPrimary t us (.lambda ps x) rest
  | group {r : Token} {rest : List Token} {x : Expr} (hl : t.is .delimiter "(")
      (hx : Gives (expr us) x (r :: rest)) (hr : r.is .delimiter ")") : ReadsPrimary t us x rest

/-- A successful reading of a primary expression is by one of the rules: the tests made in order are
turned into the rule that fits. -/
theorem readsPrimary_of_gives {t : Token} {us rest : List Token} {x : Expr}
    (h : Gives (primary (t :: us)) x rest) : ReadsPrimary t us x rest := by
  obtain ⟨_, h⟩ := h
  -- The tests are read in the order `primary` makes them, so each rule below is found under the
  -- refusals of the ones before it.
  rw [primary.eq_def] at h
  simp only at h
  split at h
  · rename_i ht
    split at h
    · rename_i v hv
      cases h
      exact .number ht hv
    · cases h
  split at h
  · rename_i hi
    split at h
    · cases h
    rename_i hx
    split at h
    · cases h
    rename_i ha
    split at h
    · cases h
    rename_i hy
    split at h
    · cases h
    rename_i he
    split at h
    · cases h
    rename_i hz
    cases h
    -- An expected lexeme is what turns the leftover of one part into the start of the next.
    obtain ⟨rfl, hthen⟩ := expect_ok ⟨_, ha⟩
    obtain ⟨rfl, helse⟩ := expect_ok ⟨_, he⟩
    exact .conditional hi ⟨_, hx⟩ hthen ⟨_, hy⟩ helse ⟨_, hz⟩
  split at h
  · rename_i ht
    split at h
    · cases h
      exact .var ht
    split at h
    · -- A name alone is tried twice: in front of neither an arrow nor a bracket it is a variable.
      rename_i ha
      split at h
      · cases h
      rename_i hx
      cases h
      exact .arrow ht rfl ha ⟨_, hx⟩
    split at h
    · rename_i hl
      split at h
      · cases h
      rename_i hxs
      cases h
      exact .call ht rfl hl ⟨_, hxs⟩
    · cases h
      exact .var ht
  split at h
  · rename_i hl
    -- Behind an opening bracket the lookahead has already said which of the two readings holds.
    split at h
    · split at h
      · cases h
      rename_i hps
      split at h
      · cases h
      rename_i ha
      split at h
      · cases h
      rename_i hx
      cases h
      obtain ⟨rfl, harrow⟩ := expect_ok ⟨_, ha⟩
      exact .lambda hl ⟨_, hps⟩ harrow ⟨_, hx⟩
    · split at h
      · cases h
      rename_i hx
      split at h
      · cases h
      rename_i hr
      cases h
      obtain ⟨rfl, hclose⟩ := expect_ok ⟨_, hr⟩
      exact .group hl ⟨_, hx⟩ hclose
  · cases h

/-- Nothing is spelled where no operator comes next. -/
theorem eq_nil_of_noLink {us rest : List Token} {ls : Links} (hus : Spells us (.links ls))
    (h : NoLink (us ++ rest)) : us = [] := by
  cases us with
  | nil => rfl
  | cons t us =>
    have ht := hus.startsLike t rfl
    rw [h t rfl] at ht
    cases ht

mutual

/-- Read as an expression, tokens spell it, and what is left does not go on with an operator. -/
theorem expr_sound {ts rest : List Token} {x : Expr} (h : Gives (expr ts) x rest) :
    ∃ us, ts = us ++ rest ∧ Spells us (.expr x) ∧ NoLink rest := by
  obtain ⟨_, h⟩ := h
  rw [expr] at h
  split at h
  · cases h
  · rename_i hx
    split at h
    · cases h
    · rename_i hls
      cases h
      obtain ⟨us, o, rfl, hus, ho⟩ := operand_sound ⟨_, hx⟩
      obtain ⟨vs, rfl, hvs, hl⟩ := links_sound ⟨_, hls⟩
      exact ⟨us ++ vs, by simp, .expr hus hvs fun h => eq_nil_of_noLink hvs (ho h), hl⟩
termination_by 5 * ts.length + 2

theorem links_sound {ts rest : List Token} {ls : Links}
    (h : ∃ h, links ts = .ok ⟨(ls, rest), h⟩) :
    ∃ us, ts = us ++ rest ∧ Spells us (.links ls) ∧ NoLink rest := by
  obtain ⟨_, h⟩ := h
  cases ts with
  | nil =>
    rw [links] at h
    cases h
    exact ⟨[], rfl, .nil, fun t ht => by cases ht⟩
  | cons t us =>
    rw [links] at h
    split at h
    · rename_i ht
      cases h
      exact ⟨[], rfl, .nil, fun u hu => by cases hu; exact ht⟩
    · rename_i op ht
      split at h
      · cases h
      · rename_i hx
        split at h
        · cases h
        · rename_i hls
          cases h
          obtain ⟨vs, o, rfl, hvs, ho⟩ := operand_sound ⟨_, hx⟩
          obtain ⟨ws, rfl, hws, hl⟩ := links_sound ⟨_, hls⟩
          exact ⟨t :: (vs ++ ws), by simp,
            .cons ht hvs hws fun h => eq_nil_of_noLink hws (ho h), hl⟩
termination_by 5 * ts.length

/-- Only an open operand says something of what is left: it has read on until no operator followed.
-/
theorem operand_sound {ts rest : List Token} {x : Expr} (h : Gives (operand ts) x rest) :
    ∃ us o, ts = us ++ rest ∧ Spells us (.operand x o) ∧ (o = true → NoLink rest) := by
  obtain ⟨_, h⟩ := h
  cases ts with
  | nil => rw [operand] at h; cases h
  | cons t us =>
    rw [operand] at h
    split at h
    · rename_i op ht
      split at h
      · cases h
      · rename_i hx
        cases h
        obtain ⟨vs, o, rfl, hvs, ho⟩ := operand_sound ⟨_, hx⟩
        exact ⟨t :: vs, o, rfl, .unary ht hvs, ho⟩
    · exact primary_sound ⟨_, h⟩
termination_by 5 * ts.length + 1

theorem primary_sound {ts rest : List Token} {x : Expr} (h : Gives (primary ts) x rest) :
    ∃ us o, ts = us ++ rest ∧ Spells us (.operand x o) ∧ (o = true → NoLink rest) := by
  cases ts with
  | nil =>
    obtain ⟨_, h⟩ := h
    rw [primary.eq_def] at h
    cases h
  | cons t us =>
    cases readsPrimary_of_gives h with
    | number ht hv => exact ⟨[t], false, rfl, .number ht hv, by simp⟩
    | conditional hi hx ha hy he hz =>
      obtain ⟨vs, rfl, hvs, -⟩ := expr_sound hx
      obtain ⟨vs₁, rfl, hvs₁, -⟩ := expr_sound hy
      obtain ⟨ws, rfl, hws, hl⟩ := expr_sound hz
      exact ⟨_, true, by simp, .conditional hi hvs ha hvs₁ he hws, fun _ => hl⟩
    | var ht => exact ⟨[t], false, rfl, .var ht, by simp⟩
    | @arrow a _ _ _ ht hus ha hx =>
      subst hus
      obtain ⟨vs, rfl, hvs, hl⟩ := expr_sound hx
      exact ⟨t :: a :: vs, true, rfl, .arrow ht ha hvs, fun _ => hl⟩
    | @call l _ _ _ ht hus hl hxs =>
      subst hus
      rcases args_sound hxs with ⟨rfl, r, rfl, hr⟩ | ⟨vs, r, rfl, hvs, hr⟩
      · exact ⟨[t, l, r], false, rfl, .callNone ht hl hr, by simp⟩
      · exact ⟨t :: l :: (vs ++ [r]), false, by simp, .call ht hl hvs hr, by simp⟩
    | lambda hl hps ha hx =>
      obtain ⟨vs, rfl, hvs⟩ := params_sound hps
      obtain ⟨ws, rfl, hws, hlink⟩ := expr_sound hx
      exact ⟨_, true, by simp, .lambda hl hvs ha hws, fun _ => hlink⟩
    | group hl hx hr =>
      obtain ⟨vs, rfl, hvs, -⟩ := expr_sound hx
      exact ⟨_, false, by simp, .group hl hvs hr, by simp⟩
termination_by 5 * ts.length

theorem args_sound {ts rest : List Token} {xs : List Expr} (h : Gives (args ts) xs rest) :
    (xs = [] ∧ ∃ r, ts = r :: rest ∧ r.is .delimiter ")") ∨
      ∃ us r, ts = us ++ r :: rest ∧ Spells us (.args xs) ∧ r.is .delimiter ")" := by
  obtain ⟨_, h⟩ := h
  cases ts with
  | nil =>
    rw [args] at h
    exact .inr (moreArgs_sound ⟨_, h⟩)
  | cons t us =>
    rw [args] at h
    split at h
    · rename_i hr
      cases h
      exact .inl ⟨rfl, t, rfl, hr⟩
    · exact .inr (moreArgs_sound ⟨_, h⟩)
termination_by 5 * ts.length + 4

theorem moreArgs_sound {ts rest : List Token} {xs : List Expr} (h : Gives (moreArgs ts) xs rest) :
    ∃ us r, ts = us ++ r :: rest ∧ Spells us (.args xs) ∧ r.is .delimiter ")" := by
  obtain ⟨_, h⟩ := h
  rw [moreArgs] at h
  split at h
  · cases h
  · cases h
  · rename_i x u us hlen hx
    split at h
    · rename_i hc
      split at h
      · cases h
      · rename_i hxs
        cases h
        obtain ⟨vs, rfl, hvs, -⟩ := expr_sound ⟨_, hx⟩
        obtain ⟨ws, r, rfl, hws, hr⟩ := moreArgs_sound ⟨_, hxs⟩
        exact ⟨vs ++ u :: ws, r, by simp, .moreArgs hvs hc hws, hr⟩
    · split at h
      · rename_i hr
        cases h
        obtain ⟨vs, rfl, hvs, -⟩ := expr_sound ⟨_, hx⟩
        exact ⟨vs, u, rfl, .lastArg hvs, hr⟩
      · cases h
termination_by 5 * ts.length + 3

end

end Parser

end Abacus
