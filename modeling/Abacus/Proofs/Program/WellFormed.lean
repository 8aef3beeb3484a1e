import Abacus.Proofs.Program.Whole
import Abacus.Proofs.Token.Scan
import Abacus.Source

/-!
# Well-formed programs

The names of a well-formed program can be written: those of variables, calls and parameters are
words that are no keywords, and the target of an assignment is any word, `def` only where a lambda
is assigned. What is read from a source is well-formed (`Program.wellFormed_of_ofSource`).
-/

namespace Abacus

/-- A word that is no keyword. -/
def IsName (s : String) : Prop := IsWord s ∧ s ∉ Lexicon.standard.keywords

mutual

/-- The names of the expression can be written. -/
def Expr.WellFormed : Expr → Prop
  | .number _ => True
  | .var name => IsName name
  | .unary _ x => x.WellFormed
  | .binary _ x y => x.WellFormed ∧ y.WellFormed
  | .conditional c t e => c.WellFormed ∧ t.WellFormed ∧ e.WellFormed
  | .call name args => IsName name ∧ Expr.WellFormedList args
  | .lambda params body => (∀ p ∈ params, IsName p) ∧ body.WellFormed

/-- The names of the expressions of a list can be written. -/
def Expr.WellFormedList : List Expr → Prop
  | [] => True
  | x :: xs => x.WellFormed ∧ Expr.WellFormedList xs

end

/-- The names of the statement can be written. -/
def Stmt.WellFormed : Stmt → Prop
  | .assign name value =>
    IsWord name ∧ (name = "def" → ∃ params body, value = .lambda params body) ∧ value.WellFormed
  | .expr value => value.WellFormed

/-- The names of the program can be written. -/
def Program.WellFormed (p : Program) : Prop := ∀ s ∈ p.statements, s.WellFormed

/-! ## Chains -/

namespace Chain

variable {P : Expr → Prop} {first : Expr} {ls : Links}

/-- Something that holds of the operands of a chain and survives binary operators. -/
structure Closed (P : Expr → Prop) (chain : Expr × Links) : Prop where
  first : P chain.1
  links : ∀ link ∈ chain.2, P link.2

theorem closed_cons {op : BinaryOp} {x : Expr} (hx : P x) (h : Closed P (first, ls)) :
    Closed P (first, (op, x) :: ls) :=
  ⟨h.first, List.forall_mem_cons.mpr ⟨hx, h.links⟩⟩

theorem closed_tail {op : BinaryOp} {x : Expr} (h : Closed P (first, (op, x) :: ls)) :
    P x ∧ ∀ link ∈ ls, P link.2 :=
  List.forall_mem_cons.mp h.links

theorem closed_joinLeft (hbin : ∀ op x y, P x → P y → P (.binary op x y)) (level : Level)
    (h : Closed P (first, ls)) : Closed P (joinLeft level first ls) := by
  induction ls generalizing first with
  | nil => exact h
  | cons link ls ih =>
    obtain ⟨op, x⟩ := link
    obtain ⟨hx, hls⟩ := closed_tail h
    rw [joinLeft]
    split
    · exact ih ⟨hbin op first x h.first hx, hls⟩
    · obtain ⟨hx', hls'⟩ := ih (⟨hx, hls⟩ : Closed P (x, ls))
      exact closed_cons hx' ⟨h.first, hls'⟩

theorem closed_joinRight (hbin : ∀ op x y, P x → P y → P (.binary op x y)) (level : Level)
    (h : Closed P (first, ls)) : Closed P (joinRight level first ls) := by
  induction ls generalizing first with
  | nil => exact h
  | cons link ls ih =>
    obtain ⟨op, x⟩ := link
    obtain ⟨hx, hls⟩ := closed_tail h
    obtain ⟨hx', hls'⟩ := ih (⟨hx, hls⟩ : Closed P (x, ls))
    rw [joinRight]
    dsimp only
    split
    · exact ⟨hbin op first _ h.first hx', hls'⟩
    · exact closed_cons hx' ⟨h.first, hls'⟩

/-- What a binary operator preserves, the joining of a whole chain preserves, level after level. -/
theorem closed_joinLevels (hbin : ∀ op x y, P x → P y → P (.binary op x y)) (levels : List Level)
    {chain : Expr × Links} (h : Closed P chain) : Closed P (joinLevels levels chain) := by
  induction levels generalizing chain with
  | nil => exact h
  | cons level levels ih => exact ih (closed_joinLeft hbin level h)

/-- What holds of all operands of a chain and survives binary operators holds of the tree. -/
theorem toExpr_of (hbin : ∀ op x y, P x → P y → P (.binary op x y)) (hfirst : P first)
    (hls : ∀ link ∈ ls, P link.2) : P (toExpr first ls) :=
  (closed_joinLevels hbin leftLevels (closed_joinRight hbin .power ⟨hfirst, hls⟩)).first

end Chain

/-! ## What is spelled is well-formed -/

/-- The tokens have texts of their kinds. -/
def Fit (ts : List Token) : Prop := ∀ t ∈ ts, Lexicon.standard.Fits t.kind t.text

@[simp] theorem fit_cons {t : Token} {ts : List Token} :
    Fit (t :: ts) ↔ Lexicon.standard.Fits t.kind t.text ∧ Fit ts := List.forall_mem_cons

@[simp] theorem fit_append {ts us : List Token} : Fit (ts ++ us) ↔ Fit ts ∧ Fit us :=
  List.forall_mem_append

/-- An identifier token the lexer made is a name. -/
theorem isName_of_fits {t : Token} (ht : t.kind = .identifier)
    (h : Lexicon.standard.Fits t.kind t.text) : IsName t.text := by
  rwa [ht] at h

theorem SpellsMoreParams.isName {ts : List Token} {ps : List String} (h : SpellsMoreParams ts ps)
    (hts : Fit ts) : ∀ p ∈ ps, IsName p := by
  induction h with
  | last ht =>
    simp only [fit_cons] at hts
    exact List.forall_mem_singleton.mpr (isName_of_fits ht hts.1)
  | more ht _ _ ih =>
    simp only [fit_cons] at hts
    exact List.forall_mem_cons.mpr ⟨isName_of_fits ht hts.1, ih hts.2.2⟩

theorem SpellsParams.isName {ts : List Token} {ps : List String} (h : SpellsParams ts ps)
    (hts : Fit ts) : ∀ p ∈ ps, IsName p := by
  cases h with
  | none => exact fun p hp => by cases hp
  | some h => exact h.isName hts

/-- The names of the phrase can be written. -/
def Phrase.WellFormed : Phrase → Prop
  | .expr x | .operand x _ => x.WellFormed
  | .links ls => ∀ link ∈ ls, link.2.WellFormed
  | .args xs => Expr.WellFormedList xs

/-- What tokens of the lexer spell is well formed: the printer can write it back. -/
theorem Spells.wellFormed {ts : List Token} {φ : Phrase} (h : Spells ts φ) (hts : Fit ts) :
    φ.WellFormed := by
  -- Names come from tokens the lexer classified, and the rules carry them into the tree unchanged.
  induction h with
  | number => simp only [Phrase.WellFormed, Expr.WellFormed]
  | var ht =>
    simp only [fit_cons] at hts
    simp only [Phrase.WellFormed, Expr.WellFormed]
    exact isName_of_fits ht hts.1
  | unary _ _ ih =>
    simp only [fit_cons] at hts
    simp only [Phrase.WellFormed, Expr.WellFormed]
    exact ih hts.2
  | callNone ht =>
    simp only [fit_cons] at hts
    simp only [Phrase.WellFormed, Expr.WellFormed, Expr.WellFormedList]
    exact ⟨isName_of_fits ht hts.1, trivial⟩
  | call ht _ _ _ ih =>
    simp only [fit_cons, fit_append] at hts
    simp only [Phrase.WellFormed, Expr.WellFormed]
    exact ⟨isName_of_fits ht hts.1, ih hts.2.2.1⟩
  | group _ _ _ ih =>
    simp only [fit_cons, fit_append] at hts
    exact ih hts.2.1
  | conditional _ _ _ _ _ _ ihx ihy ihz =>
    simp only [fit_cons, fit_append] at hts
    simp only [Phrase.WellFormed, Expr.WellFormed]
    exact ⟨ihx hts.2.1, ihy hts.2.2.2.1, ihz hts.2.2.2.2.2⟩
  | arrow ht _ _ ih =>
    simp only [fit_cons] at hts
    simp only [Phrase.WellFormed, Expr.WellFormed]
    exact ⟨List.forall_mem_singleton.mpr (isName_of_fits ht hts.1), ih hts.2.2⟩
  | lambda _ hps _ _ ih =>
    simp only [fit_cons, fit_append] at hts
    simp only [Phrase.WellFormed, Expr.WellFormed]
    exact ⟨hps.isName hts.2.1, ih hts.2.2.2⟩
  | nil => exact fun link hlink => by cases hlink
  | cons _ _ _ _ ihx ihls =>
    simp only [fit_cons, fit_append] at hts
    exact List.forall_mem_cons.mpr ⟨ihx hts.2.1, ihls hts.2.2⟩
  | expr _ _ _ ihx ihls =>
    simp only [fit_append] at hts
    -- The links are joined by binary operators only, so a chain of well-formed parts is well formed
    -- however it is grouped.
    refine Chain.toExpr_of (P := Expr.WellFormed) (fun op x y hx hy => ?_) (ihx hts.1) (ihls hts.2)
    simp only [Expr.WellFormed]
    exact ⟨hx, hy⟩
  | lastArg _ ih =>
    simp only [Phrase.WellFormed, Expr.WellFormedList]
    exact ⟨ih hts, trivial⟩
  | moreArgs _ _ _ ihx ihxs =>
    simp only [fit_cons, fit_append] at hts
    simp only [Phrase.WellFormed, Expr.WellFormedList]
    exact ⟨ihx hts.1, ihxs hts.2.2⟩

theorem isWord_of_fits {t : Token} (ht : t.isName) (h : Lexicon.standard.Fits t.kind t.text) :
    IsWord t.text := by
  rcases Token.kind_of_isName ht with hk | hk
  · rw [hk] at h; exact h.1
  · rw [hk] at h; exact h.1

theorem SpellsStmt.wellFormed {ts : List Token} {s : Stmt} (h : SpellsStmt ts s) (hts : Fit ts) :
    s.WellFormed := by
  cases h with
  | definition _ ht _ hps _ hx =>
    simp only [fit_cons, fit_append] at hts
    refine ⟨isWord_of_fits ht hts.2.1, fun _ => ⟨_, _, rfl⟩, ?_⟩
    simp only [Expr.WellFormed]
    exact ⟨hps.isName hts.2.2.2.1, hx.wellFormed hts.2.2.2.2.2⟩
  | @assign t _ _ _ ht hd _ hx =>
    simp only [fit_cons] at hts
    refine ⟨isWord_of_fits ht hts.1, fun hdef => ?_, hx.wellFormed hts.2.2⟩
    -- A token `def` is the keyword, with which an assignment does not start.
    rcases Token.kind_of_isName ht with hk | hk
    · have hname := (isName_of_fits hk hts.1).2
      rw [hdef] at hname
      exact absurd (by decide) hname
    · rw [Token.is_iff.mpr ⟨hk, hdef⟩] at hd
      cases hd
  | expr hx => exact hx.wellFormed hts

theorem SpellsStmts.wellFormed {ts : List Token} {ss : List Stmt} (h : SpellsStmts ts ss)
    (hts : Fit ts) : ∀ s ∈ ss, s.WellFormed := by
  induction h with
  | last hs => exact List.forall_mem_singleton.mpr (hs.wellFormed hts)
  | more hs _ _ _ ih =>
    simp only [fit_cons, fit_append] at hts
    exact List.forall_mem_cons.mpr ⟨hs.wellFormed hts.1, ih hts.2.2.2⟩

/-- The program that was read from a scan is well formed. -/
theorem SpellsProgram.wellFormed {ts : List Token} {p : Program} (h : SpellsProgram ts p)
    (hts : Fit ts) : p.WellFormed := by
  cases h with
  | blank => exact fun s hs => by cases hs
  | stmts _ hss _ =>
    simp only [fit_append] at hts
    exact hss.wellFormed hts.2.1

theorem Program.ofSource_ok_iff {source : String} {p : Program} :
    Program.ofSource source = .ok p ↔
      ∃ ts, Lexicon.standard.tokens source = .ok ts ∧ Program.ofTokens ts = .ok p := by
  rw [Program.ofSource, sourceTokens]
  cases hts : Lexicon.standard.tokens source with
  | error e => simp [Except.mapError, bind, Except.bind]
  | ok ts =>
    cases hp : Program.ofTokens ts with
    | error e => simp [Except.mapError, bind, Except.bind, hp]
    | ok q => simp [Except.mapError, bind, Except.bind, hp]

theorem Expr.ofSource_ok_iff {source : String} {x : Expr} :
    Expr.ofSource source = .ok x ↔
      ∃ ts, Lexicon.standard.tokens source = .ok ts ∧ Expr.ofTokens ts = .ok x := by
  rw [Expr.ofSource, sourceTokens]
  cases hts : Lexicon.standard.tokens source with
  | error e => simp [Except.mapError, bind, Except.bind]
  | ok ts =>
    cases hx : Expr.ofTokens ts with
    | error e => simp [Except.mapError, bind, Except.bind, hx]
    | ok y => simp [Except.mapError, bind, Except.bind, hx]

/-- The tokens of a source that is a program. -/
theorem Program.spells_of_ofSource {source : String} {p : Program}
    (h : Program.ofSource source = .ok p) :
    ∃ body, Lexicon.standard.tokens source = .ok (body ++ [Token.endAt source.length]) ∧
      Fit body ∧ SpellsProgram body p := by
  obtain ⟨ts, hts, hp⟩ := Program.ofSource_ok_iff.mp h
  obtain ⟨body, rfl, hbody⟩ := Lexicon.tokens_ok hts
  have hend : NoEnd body := fun t ht => (hbody t ht).1.not_end
  exact ⟨body, hts, fun t ht => (hbody t ht).1, (Program.ofTokens_iff hend rfl).mp hp⟩

/-- What is read from a source is well-formed. -/
theorem Program.wellFormed_of_ofSource {source : String} {p : Program}
    (h : Program.ofSource source = .ok p) : p.WellFormed := by
  obtain ⟨body, -, hfit, hp⟩ := Program.spells_of_ofSource h
  exact hp.wellFormed hfit

end Abacus
