import Abacus.Proofs.Program.Contents
import Abacus.Proofs.Session.Checkpoint

/-!
# Sources one by one and at once

Two sources that a session evaluates one after the other can be joined by a newline and evaluated at
once: the session is then the same as after the second one, and what is printed is what both print.
The result is that of the second source, if one of its statements sets a result, and else that of
the first one, since definitions of functions leave the result as it is (`Session.eval_joined`).

The joined source goes on with the statements of the second one where the first one ended. Apart
from its log and the result so far, the state is the one in which the second source is evaluated on
its own, and neither plays a part in what statements do.
-/

namespace Abacus

/-! ## Results -/

/-- Whether a statement with this value sets the result: all do but definitions of functions. -/
def Stmt.setsResult : Stmt → Value → Bool
  | .assign .., .closure _ => false
  | _, _ => true

/-- Whether one of the statements, with their values, sets the result. -/
def Program.setsResult (p : Program) (vs : List Value) : Bool :=
  (p.statements.zip vs).any fun e => e.1.setsResult e.2

theorem nextResult_eq (result : Value) (s : Stmt) (v : Value) :
    nextResult result s v = if s.setsResult v then v else result := by
  cases s with
  | expr x => rfl
  | assign name x =>
    cases v with
    | number a => rfl
    | closure c => rfl

/-- The result that there was before matters only if no statement sets one. -/
theorem lastResult_eq (result result' : Value) (ss : List Stmt) (vs : List Value) :
    lastResult result ss vs =
      if Program.setsResult ⟨ss⟩ vs then lastResult result' ss vs else result := by
  induction ss generalizing result result' vs with
  | nil => rfl
  | cons s ss ih =>
    cases vs with
    | nil => rfl
    | cons v vs =>
      have hany : Program.setsResult ⟨s :: ss⟩ (v :: vs) =
          (s.setsResult v || Program.setsResult ⟨ss⟩ vs) := rfl
      rw [hany, lastResult, lastResult, nextResult_eq, nextResult_eq]
      cases s.setsResult v with
      | true => rfl
      | false => exact ih result result' vs

/-! ## Going on -/

section

variable (set : Settings) (f : FrameId)

theorem Settings.evalStmts_append (index : Nat) (result : Value) (ss ss' : List Stmt) :
    set.evalStmts f index result (ss ++ ss') =
      set.evalStmts f index result ss >>= fun v => set.evalStmts f (index + ss.length) v ss' := by
  induction ss generalizing index result with
  | nil => simp [Settings.evalStmts]
  | cons s ss ih =>
    have hindex : index + (s :: ss).length = index + 1 + ss.length := by
      rw [List.length_cons]
      omega
    rw [List.cons_append, Settings.evalStmts, Settings.evalStmts, hindex]
    simp only [ih, bind_assoc]

variable {set f} {s t : State} {vs : List Value} {ss : List Stmt} {x : Float}

theorem Settings.evalProgram_ok_iff {p : Program} :
    (set.evalProgram f p).on s = (.ok x, t) ↔
      (set.evalStmts f 0 (.number 0) p.statements).on s = (.ok (.number x), t) := by
  unfold Settings.evalProgram
  constructor
  · intro h
    obtain ⟨v, u, hv, h⟩ := Run.ok_of_on_bind h
    cases v with
    | number y =>
      cases h
      exact hv
    | closure c => cases h
  · exact fun h => Run.on_bind_ok h

/-- Behind other statements, which have written a log, statements do what they do in a fresh run. -/
theorem Settings.stmtValues_resumed (hs : s.store.Formed) (hss : ∀ stmt ∈ ss, stmt.WellFormed)
    (h : (set.stmtValues f 0 ss).on ⟨s.store, #[]⟩ = (.ok vs, t)) (index : Nat) :
    ∃ u, (set.stmtValues f index ss).on s = (.ok vs, u) ∧ u.store = t.store ∧
      printedTexts u.log.toList = printedTexts s.log.toList ++ printedTexts t.log.toList := by
  let m : Mirror := ⟨.same, True, False, printedTexts s.log.toList⟩
  have hset : Settings.Matches m set set := ⟨rfl, False.elim⟩
  have hstates : m.States ⟨s.store, #[]⟩ s :=
    ⟨hs.renumbers_same, (List.append_nil _).symm, False.elim⟩
  have hmirrors : Run.Mirrors m (List.map m.value) (set.stmtValues f 0 ss)
      (set.stmtValues f index ss) := Settings.stmtValues_mirrors hset hss f False.elim
  have hends := hmirrors _ _ hstates
  rw [h] at hends
  generalize (set.stmtValues f index ss).on s = end₂ at hends ⊢
  cases hends with
  | @ok _ _ u hu =>
    refine ⟨u, ?_, hu.store.eq_of_same, hu.printed⟩
    rw [show vs.map m.value = vs from Renumbering.same_values vs]

/-- Two programs that run one after the other, the second one with a fresh log, run as one program.
The values are those of the statements of the second program. -/
theorem Settings.evalProgram_append {p₁ p₂ : Program} {v₁ v₂ : Float} {t₁ t₂ : State}
    (h₁ : (set.evalProgram f p₁).on s = (.ok v₁, t₁)) (ht₁ : t₁.store.Formed)
    (hp₂ : p₂.WellFormed) (h₂ : (set.evalProgram f p₂).on ⟨t₁.store, #[]⟩ = (.ok v₂, t₂)) :
    ∃ vs u, (set.stmtValues f 0 p₂.statements).on ⟨t₁.store, #[]⟩ = (.ok vs, t₂) ∧
      (set.evalProgram f ⟨p₁.statements ++ p₂.statements⟩).on s =
        (.ok (if p₂.setsResult vs then v₂ else v₁), u) ∧ u.store = t₂.store ∧
      printedTexts u.log.toList = printedTexts t₁.log.toList ++ printedTexts t₂.log.toList := by
  rw [Settings.evalProgram_ok_iff] at h₁ h₂
  rw [Settings.evalStmts_eq] at h₂
  obtain ⟨vs, u₂, hvs, hend⟩ := Run.ok_of_on_bind h₂
  obtain ⟨hresult, rfl⟩ := Prod.mk.inj hend
  have hlast : lastResult (.number 0) p₂.statements vs = .number v₂ := Except.ok.inj hresult
  obtain ⟨u, hu, hstore, hprinted⟩ :=
    Settings.stmtValues_resumed ht₁ hp₂ hvs (0 + p₁.statements.length)
  have hboth : lastResult (.number v₁) p₂.statements vs =
      .number (if p₂.setsResult vs then v₂ else v₁) := by
    rw [lastResult_eq _ (.number 0), hlast]
    split
    · rfl
    · rfl
  refine ⟨vs, u, hvs, ?_, hstore, hprinted⟩
  rw [Settings.evalProgram_ok_iff, Settings.evalStmts_append, Run.on_bind_ok h₁,
    Settings.evalStmts_eq, Run.on_bind_ok hu, hboth]
  rfl

end

/-! ## Sources that are evaluated without a failure -/

namespace Session

variable {s : Session} {saved : List (Bindings Value)} {set : Settings} {source : String}
  {p : Program} {x : Float}

/-- What a source comes to whose program ends with a result. -/
theorem eval_of_run {t : State} (hp : Program.ofSource source = .ok p)
    (h : (set.evalProgram Store.root p).on s.start = (.ok x, t)) :
    (s.eval set source).1.result = .ok x ∧
      printedTexts (s.eval set source).1.log = printedTexts t.log.toList ∧
      (s.eval set source).2 = ⟨t.store⟩ := by
  unfold Session.start at h
  rw [eval_eq, hp]
  dsimp only
  rw [h]
  exact ⟨rfl, printedTexts_reading set _ source _, rfl⟩

/-- What a source comes to whose program ends with a fault. -/
theorem eval_of_fault {t : State} {e : Fault} (hp : Program.ofSource source = .ok p)
    (h : (set.evalProgram Store.root p).on s.start = (.error e, t)) :
    (s.eval set source).1.result = .error (.fault e) ∧
      printedTexts (s.eval set source).1.log = printedTexts t.log.toList ∧
      (s.eval set source).2 = (Session.mk t.store).restore s.bindings := by
  unfold Session.start at h
  rw [eval_eq, hp]
  dsimp only
  rw [h]
  exact ⟨rfl, printedTexts_reading set _ source _, rfl⟩

theorem run_of_eval (h : (s.eval set source).1.result = .ok x) :
    ∃ p t, Program.ofSource source = .ok p ∧
      (set.evalProgram Store.root p).on s.start = (.ok x, t) := by
  rw [eval_eq] at h
  cases hp : Program.ofSource source with
  | error e =>
    rw [hp] at h
    cases h
  | ok p =>
    rw [hp] at h
    dsimp only at h
    unfold Session.start
    cases hrun : (set.evalProgram Store.root p).on ⟨s.store, #[]⟩ with | mk result t =>
    rw [hrun] at h
    cases result with
    | ok y =>
      cases h
      exact ⟨p, t, rfl, hrun⟩
    | error e => cases h

/-- Whether the source has a statement that sets the result, with the value that it gets in the
session. -/
def setsResult (s : Session) (set : Settings) (source : String) : Bool :=
  match Program.ofSource source with
  | .error _ => false
  | .ok p =>
    match ((set.stmtValues Store.root 0 p.statements).on s.start).1 with
    | .ok vs => p.setsResult vs
    | .error _ => false

/-- Sources that a session evaluates one after the other without a failure can be joined by a
newline: the joined source is a program of the statements of both, it leaves the same session and
prints the same texts, and its result is the second one, or the first one if the second source sets
none. -/
theorem eval_joined (h : Reachable s saved) (set : Settings) (source₁ source₂ : String)
    {v₁ v₂ : Float} (h₁ : (s.eval set source₁).1.result = .ok v₁)
    (h₂ : ((s.eval set source₁).2.eval set source₂).1.result = .ok v₂) :
    let first := s.eval set source₁
    let second := first.2.eval set source₂
    let both := s.eval set (source₁ ++ "\n" ++ source₂)
    (∃ p₁ p₂, Program.ofSource source₁ = .ok p₁ ∧ Program.ofSource source₂ = .ok p₂ ∧
      Program.ofSource (source₁ ++ "\n" ++ source₂) = .ok ⟨p₁.statements ++ p₂.statements⟩) ∧
    both.1.result = .ok (if first.2.setsResult set source₂ then v₂ else v₁) ∧
    printedTexts both.1.log = printedTexts first.1.log ++ printedTexts second.1.log ∧
    both.2 = second.2 := by
  intro first second both
  obtain ⟨p₁, t₁, hp₁, hrun₁⟩ := run_of_eval h₁
  obtain ⟨-, hprinted₁, hafter₁⟩ := eval_of_run hp₁ hrun₁
  obtain ⟨p₂, t₂, hp₂, hrun₂⟩ := run_of_eval h₂
  obtain ⟨-, hprinted₂, hafter₂⟩ := eval_of_run hp₂ hrun₂
  -- The joined run goes on with new names in the store the first program left, whose closures have
  -- to be well formed.
  have hformed : t₁.store.Formed := by
    have hfirst := formed_eval h.formed set source₁
    rwa [hafter₁] at hfirst
  have hp := Program.ofSource_joined hp₁ hp₂
  rw [hafter₁] at hrun₂
  obtain ⟨vs, u, hvs, hrun, hstore, hprinted⟩ :=
    Settings.evalProgram_append hrun₁ hformed (Program.wellFormed_of_ofSource hp₂) hrun₂
  obtain ⟨hvalue, hlog, hafter⟩ := eval_of_run hp hrun
  have hsets : first.2.setsResult set source₂ = p₂.setsResult vs := by
    simp only [first, hafter₁]
    unfold setsResult Session.start
    rw [hp₂]
    dsimp only
    rw [hvs]
  refine ⟨⟨p₁, p₂, hp₁, hp₂, hp⟩, ?_, ?_, ?_⟩
  · rw [hsets]
    exact hvalue
  · simp only [both, first, second, hlog, hprinted, hprinted₁, hprinted₂]
  · simp only [both, first, second, hafter, hafter₂, hstore]

/-- The first source ends in a comment, and the second one has definitions only, so that the result
of the first one stays. -/
theorem eval_joined_definitions :
    let set : Settings := ⟨false, false, 8⟩
    let s := (Session.empty.eval set "k = 2").2
    let first := s.eval set "print(k) # shown"
    let second := first.2.eval set "def f(y) = y; g = f"
    let both := s.eval set "print(k) # shown\ndef f(y) = y; g = f"
    first.1.result = .ok 2 ∧ second.1.result = .ok 0 ∧ both.1.result = .ok 2 ∧
      printedTexts both.1.log = printedTexts first.1.log ++ printedTexts second.1.log ∧
      both.2 = second.2 := by
  intro set s first second both
  have hreachable : Reachable s [] := .eval set _ .empty
  have h₁ : first.1.result = .ok 2 := by decide +kernel
  have h₂ : second.1.result = .ok 0 := by decide +kernel
  have hnone : first.2.setsResult set "def f(y) = y; g = f" = false := by decide +kernel
  obtain ⟨-, hresult, hprinted, hsession⟩ := eval_joined hreachable set _ _ h₁ h₂
  rw [hnone] at hresult
  exact ⟨h₁, h₂, hresult, hprinted, hsession⟩

end Session

end Abacus
