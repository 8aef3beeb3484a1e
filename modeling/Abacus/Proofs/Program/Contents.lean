import Abacus.Proofs.Program.WellFormed
import Abacus.Proofs.Token.Seam

/-!
# Kinds and texts

What tokens spell depends on their kinds and texts and not on their positions
(`SpellsProgram.of_contents`). So the program that two sources joined by a newline are is known from
the programs that they are (`Program.ofSource_joined`).
-/

namespace Abacus

open Token (contents)

section Contents

variable {ts us : List Token}

theorem Token.cons_of_contents {t : Token} (h : contents us = contents (t :: ts)) :
    ∃ pos vs, us = { t with pos := pos } :: vs ∧ contents vs = contents ts := by
  obtain ⟨u, vs, rfl, ht, hvs⟩ := List.map_eq_cons_iff.mp h
  obtain ⟨pos, rfl⟩ := Token.eq_moved_of_content ht
  exact ⟨pos, vs, rfl, hvs⟩

theorem Token.single_of_contents {t : Token} (h : contents us = contents [t]) :
    ∃ pos, us = [{ t with pos := pos }] := by
  obtain ⟨pos, vs, rfl, hvs⟩ := Token.cons_of_contents h
  exact ⟨pos, by rw [List.map_eq_nil_iff.mp hvs]⟩

/-- The other list can be cut where the first one is. -/
theorem Token.append_of_contents {ts' : List Token} (h : contents us = contents (ts ++ ts')) :
    ∃ vs vs', us = vs ++ vs' ∧ contents vs = contents ts ∧ contents vs' = contents ts' :=
  List.map_eq_append_iff.mp (h.trans List.map_append)

open Token (cons_of_contents single_of_contents append_of_contents)

theorem SpellsMoreParams.of_contents {ps : List String} (h : SpellsMoreParams ts ps)
    (hus : contents us = contents ts) : SpellsMoreParams us ps := by
  induction h generalizing us with
  | last ht hr =>
    obtain ⟨_, _, rfl, h₁⟩ := cons_of_contents hus
    obtain ⟨_, rfl⟩ := single_of_contents h₁
    exact .last ht hr
  | more ht hc _ ih =>
    obtain ⟨_, _, rfl, h₁⟩ := cons_of_contents hus
    obtain ⟨_, _, rfl, h₂⟩ := cons_of_contents h₁
    exact .more ht hc (ih h₂)

theorem SpellsParams.of_contents {ps : List String} (h : SpellsParams ts ps)
    (hus : contents us = contents ts) : SpellsParams us ps := by
  cases h with
  | none hr =>
    obtain ⟨_, rfl⟩ := single_of_contents hus
    exact .none hr
  | some h => exact .some (h.of_contents hus)

theorem Spells.of_contents {φ : Phrase} (h : Spells ts φ) (hus : contents us = contents ts) :
    Spells us φ := by
  -- The rules never look at positions: the other list is taken apart along the same cuts, and every
  -- token found in it equals its partner up to the position.
  induction h generalizing us with
  | number ht hv =>
    obtain ⟨_, rfl⟩ := single_of_contents hus
    exact .number ht hv
  | var ht =>
    obtain ⟨_, rfl⟩ := single_of_contents hus
    exact .var ht
  | unary ht _ ih =>
    obtain ⟨_, _, rfl, h₁⟩ := cons_of_contents hus
    exact .unary ht (ih h₁)
  | callNone ht hl hr =>
    obtain ⟨_, _, rfl, h₁⟩ := cons_of_contents hus
    obtain ⟨_, _, rfl, h₂⟩ := cons_of_contents h₁
    obtain ⟨_, rfl⟩ := single_of_contents h₂
    exact .callNone ht hl hr
  | call ht hl _ hr ih =>
    obtain ⟨_, _, rfl, h₁⟩ := cons_of_contents hus
    obtain ⟨_, _, rfl, h₂⟩ := cons_of_contents h₁
    obtain ⟨_, _, rfl, hxs, h₃⟩ := append_of_contents h₂
    obtain ⟨_, rfl⟩ := single_of_contents h₃
    exact .call ht hl (ih hxs) hr
  | group hl _ hr ih =>
    obtain ⟨_, _, rfl, h₁⟩ := cons_of_contents hus
    obtain ⟨_, _, rfl, hx, h₂⟩ := append_of_contents h₁
    obtain ⟨_, rfl⟩ := single_of_contents h₂
    exact .group hl (ih hx) hr
  | conditional hi _ ht _ he _ ihx ihy ihz =>
    obtain ⟨_, _, rfl, h₁⟩ := cons_of_contents hus
    obtain ⟨_, _, rfl, hx, h₂⟩ := append_of_contents h₁
    obtain ⟨_, _, rfl, h₃⟩ := cons_of_contents h₂
    obtain ⟨_, _, rfl, hy, h₄⟩ := append_of_contents h₃
    obtain ⟨_, _, rfl, hz⟩ := cons_of_contents h₄
    exact .conditional hi (ihx hx) ht (ihy hy) he (ihz hz)
  | arrow ht ha _ ih =>
    obtain ⟨_, _, rfl, h₁⟩ := cons_of_contents hus
    obtain ⟨_, _, rfl, hx⟩ := cons_of_contents h₁
    exact .arrow ht ha (ih hx)
  | lambda hl hps ha _ ih =>
    obtain ⟨_, _, rfl, h₁⟩ := cons_of_contents hus
    obtain ⟨_, _, rfl, hps', h₂⟩ := append_of_contents h₁
    obtain ⟨_, _, rfl, hx⟩ := cons_of_contents h₂
    exact .lambda hl (hps.of_contents hps') ha (ih hx)
  | nil =>
    rw [List.map_eq_nil_iff.mp hus]
    exact .nil
  | cons ht _ _ ho ihx ihls =>
    obtain ⟨_, _, rfl, h₁⟩ := cons_of_contents hus
    obtain ⟨_, _, rfl, hx, hls⟩ := append_of_contents h₁
    -- That an open operand ends its chain is read off the other list too.
    refine .cons ht (ihx hx) (ihls hls) fun hopen => ?_
    rw [ho hopen] at hls
    exact List.map_eq_nil_iff.mp hls
  | expr _ _ ho ihx ihls =>
    obtain ⟨_, _, rfl, hx, hls⟩ := append_of_contents hus
    refine .expr (ihx hx) (ihls hls) fun hopen => ?_
    rw [ho hopen] at hls
    exact List.map_eq_nil_iff.mp hls
  | lastArg _ ih => exact .lastArg (ih hus)
  | moreArgs _ hc _ ihx ihxs =>
    obtain ⟨_, _, rfl, hx, h₁⟩ := append_of_contents hus
    obtain ⟨_, _, rfl, hxs⟩ := cons_of_contents h₁
    exact .moreArgs (ihx hx) hc (ihxs hxs)

/-- Statements are spelled by contents alone as well. -/
theorem SpellsStmt.of_contents {s : Stmt} (h : SpellsStmt ts s) (hus : contents us = contents ts) :
    SpellsStmt us s := by
  cases h with
  | definition hd ht hl hps he hx =>
    obtain ⟨_, _, rfl, h₁⟩ := cons_of_contents hus
    obtain ⟨_, _, rfl, h₂⟩ := cons_of_contents h₁
    obtain ⟨_, _, rfl, h₃⟩ := cons_of_contents h₂
    obtain ⟨_, _, rfl, hps', h₄⟩ := append_of_contents h₃
    obtain ⟨_, _, rfl, hx'⟩ := cons_of_contents h₄
    exact .definition hd ht hl (hps.of_contents hps') he (hx.of_contents hx')
  | assign ht hd he hx =>
    obtain ⟨_, _, rfl, h₁⟩ := cons_of_contents hus
    obtain ⟨_, _, rfl, hx'⟩ := cons_of_contents h₁
    exact .assign ht hd he (hx.of_contents hx')
  | expr hx => exact .expr (hx.of_contents hus)

theorem Separators.of_contents (h : Separators ts) (hus : contents us = contents ts) :
    Separators us := by
  induction ts generalizing us with
  | nil =>
    rw [List.map_eq_nil_iff.mp hus]
    exact separators_nil
  | cons t ts ih =>
    obtain ⟨_, _, rfl, h₁⟩ := cons_of_contents hus
    obtain ⟨ht, hts⟩ := List.forall_mem_cons.mp h
    exact List.forall_mem_cons.mpr ⟨ht, ih hts h₁⟩

theorem SpellsStmts.of_contents {ss : List Stmt} (h : SpellsStmts ts ss)
    (hus : contents us = contents ts) : SpellsStmts us ss := by
  induction h generalizing us with
  | last hs => exact .last (hs.of_contents hus)
  | more hs ht hseps _ ih =>
    obtain ⟨_, _, rfl, hs', h₁⟩ := append_of_contents hus
    obtain ⟨_, _, rfl, h₂⟩ := cons_of_contents h₁
    obtain ⟨_, _, rfl, hseps', hss⟩ := append_of_contents h₂
    exact .more (hs.of_contents hs') ht (hseps.of_contents hseps') (ih hss)

/-- Tokens of the same kinds and texts write the same program. -/
theorem SpellsProgram.of_contents {p : Program} (h : SpellsProgram ts p)
    (hus : contents us = contents ts) : SpellsProgram us p := by
  cases h with
  | blank hseps => exact .blank (hseps.of_contents hus)
  | stmts hbefore hss hbehind =>
    obtain ⟨_, _, rfl, hbefore', h₁⟩ := append_of_contents hus
    obtain ⟨_, _, rfl, hss', hbehind'⟩ := append_of_contents h₁
    exact .stmts (hbefore.of_contents hbefore') (hss.of_contents hss')
      (hbehind.of_contents hbehind')

end Contents

/-! ## Joined sources -/

/-- Behind a program no parenthesis is open. -/
theorem SpellsProgram.depthBehind {ts : List Token} {p : Program} (h : SpellsProgram ts p) :
    Token.depthBehind 0 ts = 0 := by
  have hnone : Balance.offenderFrom [] ts = none := by
    have hbalanced := h.balanced [] []
    rwa [List.append_nil] at hbalanced
  exact Balance.depthBehind_eq_zero hnone

/-- Two sources joined by a newline are a program of the statements of both. -/
theorem Program.ofSource_joined {source₁ source₂ : String} {p₁ p₂ : Program}
    (h₁ : Program.ofSource source₁ = .ok p₁) (h₂ : Program.ofSource source₂ = .ok p₂) :
    Program.ofSource (source₁ ++ "\n" ++ source₂) = .ok ⟨p₁.statements ++ p₂.statements⟩ := by
  obtain ⟨body₁, hts₁, -, hp₁⟩ := Program.spells_of_ofSource h₁
  obtain ⟨body₂, hts₂, -, hp₂⟩ := Program.spells_of_ofSource h₂
  obtain ⟨t, body, hts, ht, hbody⟩ :=
    Lexicon.tokens_joined Lexicon.noNewlines_standard hts₁ hts₂ hp₁.depthBehind
  have hseparator : t.isSeparator := by simp [Token.isSeparator, ht]
  have hp := hp₁.append hseparator (hp₂.of_contents hbody)
  exact Program.ofSource_ok_iff.mpr ⟨_, hts, (Program.ofTokens_iff hp.noEnd rfl).mpr hp⟩

end Abacus
