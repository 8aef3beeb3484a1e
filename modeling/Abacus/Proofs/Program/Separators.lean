import Abacus.Proofs.Program.Contents
import Abacus.Proofs.Program.Parentheses
import Mathlib.Data.List.Forall2

/-!
# Separators

How many separators stand in one place, and which ones, makes no difference, as long as there is one
between two statements (`Program.ofTokens_reseparated`). A program is known from the runs of tokens
between the separators (`blocks`): each of them is a statement, and there are no others
(`spellsProgram_iff_blocks`).

* `Reseparated`: the lists are the same but for their separators.
* `blocks_append_separator`: a separator belongs to no block, and cuts blocks apart.
-/

namespace Abacus

/-! ## Blocks -/

/-- None of the tokens separates statements. -/
def Unseparated (ts : List Token) : Prop := ∀ t ∈ ts, t.isSeparator = false

instance : DecidablePred Unseparated := fun ts =>
  List.decidableBAll (fun t : Token => t.isSeparator = false) ts

/-- The runs of tokens between separators. -/
def blocks (ts : List Token) : List (List Token) :=
  (ts.splitOnP Token.isSeparator).filter fun run => !run.isEmpty

section Blocks

variable {ts us seps : List Token} {t : Token}

theorem blocks_append_separator (ht : t.isSeparator) (ts us : List Token) :
    blocks (ts ++ t :: us) = blocks ts ++ blocks us := by
  rw [blocks, List.splitOnP_append_cons _ _ ht, List.filter_append]
  rfl

theorem blocks_nil : blocks [] = [] := rfl

theorem blocks_separators_append (hseps : Separators seps) (ts : List Token) :
    blocks (seps ++ ts) = blocks ts := by
  induction seps with
  | nil => rfl
  | cons t seps ih =>
    obtain ⟨ht, hseps⟩ := List.forall_mem_cons.mp hseps
    have hcut := blocks_append_separator ht [] (seps ++ ts)
    rw [List.nil_append, blocks_nil, List.nil_append] at hcut
    rw [List.cons_append, hcut, ih hseps]

theorem blocks_separators (hseps : Separators seps) : blocks seps = [] := by
  have h := blocks_separators_append hseps []
  rwa [List.append_nil] at h

/-- Some separators cut blocks apart as one does. -/
theorem blocks_append_separators (hseps : Separators seps) (hne : seps ≠ []) (ts us : List Token) :
    blocks (ts ++ (seps ++ us)) = blocks ts ++ blocks us := by
  cases seps with
  | nil => exact absurd rfl hne
  | cons t seps =>
    obtain ⟨ht, hseps⟩ := List.forall_mem_cons.mp hseps
    rw [List.cons_append, blocks_append_separator ht, blocks_separators_append hseps]

theorem blocks_append_behind (hseps : Separators seps) (ts : List Token) :
    blocks (ts ++ seps) = blocks ts := by
  cases seps with
  | nil => rw [List.append_nil]
  | cons t seps =>
    have h := blocks_append_separators hseps (List.cons_ne_nil t seps) ts []
    rwa [List.append_nil, blocks_nil, List.append_nil] at h

/-- Tokens without a separator are one block. -/
theorem blocks_of_unseparated (hne : ts ≠ []) (h : Unseparated ts) : blocks ts = [ts] := by
  have hsplit : ts.splitOnP Token.isSeparator = [ts] :=
    List.splitOnP_eq_singleton fun t ht => by simp [h t ht]
  simp [blocks, hsplit, hne]

end Blocks

/-! ## Programs by their blocks -/

section Programs

variable {ts us : List Token} {s : Stmt} {ss : List Stmt} {p : Program}

theorem SpellsStmt.blocks_eq (h : SpellsStmt ts s) : blocks ts = [ts] := by
  obtain ⟨t, us, rfl, -⟩ := h.start
  exact blocks_of_unseparated (List.cons_ne_nil t us) h.noBreak.not_separator

theorem SpellsStmts.blocks (h : SpellsStmts ts ss) :
    List.Forall₂ SpellsStmt (blocks ts) ss := by
  induction h with
  | last hs =>
    rw [hs.blocks_eq]
    exact .cons hs .nil
  | more hs ht hseps _ ih =>
    rw [blocks_append_separator ht, hs.blocks_eq, blocks_separators_append hseps]
    exact .cons hs ih

/-- If the first blocks of a list are those of some tokens without a separator, these tokens are a
program of the first statements. -/
theorem exists_program_of_unseparated {run : List Token} {runs : List (List Token)}
    (hrun : Unseparated run) (h : List.Forall₂ SpellsStmt (blocks run ++ runs) ss) :
    ∃ ss₁ ss₂, ss = ss₁ ++ ss₂ ∧ SpellsProgram run ⟨ss₁⟩ ∧ List.Forall₂ SpellsStmt runs ss₂ := by
  by_cases hne : run = []
  · subst hne
    exact ⟨[], ss, rfl, .blank separators_nil, h⟩
  · rw [blocks_of_unseparated hne hrun] at h
    cases h with
    | @cons _ s _ ss₂ hs hrest =>
      have hprogram := SpellsProgram.stmts separators_nil (.last hs) separators_nil
      rw [List.append_nil, List.nil_append] at hprogram
      exact ⟨[s], ss₂, rfl, hprogram, hrest⟩

/-- Where there is a separator, there is a first one. -/
theorem unseparated_or_first (ts : List Token) :
    Unseparated ts ∨ ∃ run t us, ts = run ++ t :: us ∧ Unseparated run ∧ t.isSeparator := by
  induction ts with
  | nil => exact .inl (List.forall_mem_nil _)
  | cons t ts ih =>
    by_cases ht : t.isSeparator
    · exact .inr ⟨[], t, ts, rfl, List.forall_mem_nil _, ht⟩
    rw [Bool.not_eq_true] at ht
    rcases ih with h | ⟨run, u, us, rfl, hrun, hu⟩
    · exact .inl (List.forall_mem_cons.mpr ⟨ht, h⟩)
    · exact .inr ⟨t :: run, u, us, rfl, List.forall_mem_cons.mpr ⟨ht, hrun⟩, hu⟩

theorem spellsProgram_of_blocks (ts : List Token) {ss : List Stmt}
    (h : List.Forall₂ SpellsStmt (blocks ts) ss) : SpellsProgram ts ⟨ss⟩ := by
  rcases unseparated_or_first ts with hts | ⟨run, t, us, hts, hrun, ht⟩
  · rw [← List.append_nil (blocks ts)] at h
    obtain ⟨ss₁, ss₂, rfl, hprogram, hrest⟩ := exists_program_of_unseparated hts h
    cases hrest
    rwa [List.append_nil]
  · have hlen : us.length < ts.length := by
      rw [hts, List.length_append, List.length_cons]
      omega
    rw [hts, blocks_append_separator ht] at h
    obtain ⟨ss₁, ss₂, rfl, hprogram, hrest⟩ := exists_program_of_unseparated hrun h
    rw [hts]
    exact hprogram.append ht (spellsProgram_of_blocks us hrest)
termination_by ts.length

/-- A program has one statement for each block. -/
theorem spellsProgram_iff_blocks :
    SpellsProgram ts p ↔ List.Forall₂ SpellsStmt (blocks ts) p.statements := by
  refine ⟨fun h => ?_, spellsProgram_of_blocks ts⟩
  cases h with
  | blank hseps =>
    rw [blocks_separators hseps]
    exact .nil
  | stmts hbefore hss hbehind =>
    rw [blocks_separators_append hbefore, blocks_append_behind hbehind]
    exact hss.blocks

end Programs

/-! ## Other separators -/

/-- Both lists are runs of tokens without a separator, the same in both, with some separators
between two of them. -/
inductive ReseparatedInside : List Token → List Token → Prop
  | last {run : List Token} (hrun : Unseparated run) (hne : run ≠ []) : ReseparatedInside run run
  | more {run seps seps' ts us : List Token} (hrun : Unseparated run) (hne : run ≠ [])
      (hseps : Separators seps) (hsome : seps ≠ []) (hseps' : Separators seps')
      (hsome' : seps' ≠ []) (h : ReseparatedInside ts us) :
      ReseparatedInside (run ++ (seps ++ ts)) (run ++ (seps' ++ us))

/-- The lists are the same but for separators: where the one has a run of them between other tokens
the other has some too, and at both ends each has any number of them. -/
inductive Reseparated : List Token → List Token → Prop
  | blank {seps seps' : List Token} (hseps : Separators seps) (hseps' : Separators seps') :
      Reseparated seps seps'
  | around {before before' ts us behind behind' : List Token} (hbefore : Separators before)
      (hbefore' : Separators before') (h : ReseparatedInside ts us)
      (hbehind : Separators behind) (hbehind' : Separators behind') :
      Reseparated (before ++ (ts ++ behind)) (before' ++ (us ++ behind'))

section Reseparated

variable {ts us : List Token}

theorem ReseparatedInside.blocks_eq (h : ReseparatedInside ts us) : blocks ts = blocks us := by
  induction h with
  | last => rfl
  | more _ _ hseps hsome hseps' hsome' _ ih =>
    rw [blocks_append_separators hseps hsome, blocks_append_separators hseps' hsome', ih]

/-- Other separators make no other blocks. -/
theorem Reseparated.blocks_eq (h : Reseparated ts us) : blocks ts = blocks us := by
  cases h with
  | blank hseps hseps' => rw [blocks_separators hseps, blocks_separators hseps']
  | around hbefore hbefore' h hbehind hbehind' =>
    rw [blocks_separators_append hbefore, blocks_append_behind hbehind, h.blocks_eq,
      blocks_separators_append hbefore', blocks_append_behind hbehind']

theorem ReseparatedInside.noEnd (h : ReseparatedInside ts us) (hts : NoEnd ts) : NoEnd us := by
  induction h with
  | last => exact hts
  | more _ _ _ _ hseps' _ _ ih =>
    simp only [noEnd_append] at hts ⊢
    exact ⟨hts.1, hseps'.noEnd, ih hts.2.2⟩

theorem Reseparated.noEnd (h : Reseparated ts us) (hts : NoEnd ts) : NoEnd us := by
  cases h with
  | blank _ hseps' => exact hseps'.noEnd
  | around _ hbefore' h _ hbehind' =>
    simp only [noEnd_append] at hts ⊢
    exact ⟨hbefore'.noEnd, h.noEnd hts.2.1, hbehind'.noEnd⟩

theorem Reseparated.spellsProgram_iff (h : Reseparated ts us) {p : Program} :
    SpellsProgram ts p ↔ SpellsProgram us p := by
  rw [spellsProgram_iff_blocks, h.blocks_eq, spellsProgram_iff_blocks]

/-- Where the end of the text comes last, other separators change neither whether the tokens are
read as a program nor which program they are, with the check of the parentheses and without it. -/
theorem Program.ofTokens_reseparated {e e' : Token} (hts : NoEnd ts) (he : e.isEnd)
    (he' : e'.isEnd) (h : Reseparated ts us) (p : Program) :
    (Program.ofTokens (ts ++ [e]) = .ok p ↔ Program.ofTokens (us ++ [e']) = .ok p) ∧
      (Parser.program (ts ++ [e]) = .ok p ↔ Parser.program (us ++ [e']) = .ok p) := by
  have hus := h.noEnd hts
  rw [Program.ofTokens_iff hts he, Program.ofTokens_iff hus he', Parser.program_iff hts he,
    Parser.program_iff hus he']
  exact ⟨h.spellsProgram_iff, h.spellsProgram_iff⟩

/-- `x = 1; f(x)` with newlines for the separator, and with separators around it. -/
theorem Program.ofTokens_reseparated_lines :
    let head : List Token := [⟨.identifier, "x", 0⟩, ⟨.operator, "=", 2⟩, ⟨.number, "1", 4⟩]
    let tail : List Token := [⟨.identifier, "f", 7⟩, ⟨.delimiter, "(", 8⟩, ⟨.identifier, "x", 9⟩,
      ⟨.delimiter, ")", 10⟩]
    let semicolon : Token := ⟨.delimiter, ";", 5⟩
    let newline : Token := ⟨.newline, "\n", 5⟩
    let ts := head ++ ([semicolon] ++ tail)
    let us := [newline] ++ ((head ++ ([newline, semicolon, newline] ++ tail)) ++ [semicolon])
    let e := Token.endAt 11
    NoEnd ts ∧ e.isEnd ∧ Reseparated ts us ∧ Program.ofTokens (us ++ [e]) =
      .ok ⟨[.assign "x" (.number 1), .expr (.call "f" [.var "x"])]⟩ := by
  intro head tail semicolon newline ts us e
  have hinside : ReseparatedInside ts (head ++ ([newline, semicolon, newline] ++ tail)) :=
    .more (by decide) (by decide) (by decide) (by decide) (by decide) (by decide)
      (.last (by decide) (by decide))
  have hnewline : Separators [newline] := by decide
  have hsemicolon : Separators [semicolon] := by decide
  have h : Reseparated ts us := by
    have haround := Reseparated.around separators_nil hnewline hinside separators_nil hsemicolon
    rwa [List.append_nil, List.nil_append] at haround
  have hts : NoEnd ts := by decide
  have hread : Program.ofTokens (ts ++ [e]) =
      .ok ⟨[.assign "x" (.number 1), .expr (.call "f" [.var "x"])]⟩ := by
    decide +kernel
  exact ⟨hts, rfl, h, ((ofTokens_reseparated hts rfl rfl h _).1).mp hread⟩

end Reseparated

end Abacus
