import Abacus.Proofs.Eval.Correspondence
import Abacus.Proofs.Session.Tracing

/-!
# Single expressions as programs

A source is a single expression exactly where it is a program whose one statement is this expression
(`Expr.ofSource_iff_program`). Evaluated in either way it gives the same and prints the same
(`evalExpr_agrees`): the program only writes a line of the trace before it evaluates the expression,
and says in other words that a function is no result.
-/

namespace Abacus

/-! ## Reading -/

theorem spellsProgram_single_iff {us : List Token} {x : Expr} :
    SpellsProgram us ⟨[.expr x]⟩ ↔ SpellsSingle us x := by
  constructor
  · intro h
    cases h with
    | stmts hbefore hss hbehind =>
      cases hss with
      | last hs =>
        cases hs with
        | expr hx => exact ⟨_, _, _, rfl, hbefore, hx, hbehind⟩
      | more _ _ _ hnone => cases hnone
  · rintro ⟨before, ts, behind, rfl, hbefore, hx, hbehind⟩
    exact .stmts hbefore (.last (.expr hx)) hbehind

theorem Expr.ofSource_iff_program {source : String} {x : Expr} :
    Expr.ofSource source = .ok x ↔ Program.ofSource source = .ok ⟨[.expr x]⟩ := by
  rw [Expr.ofSource_ok_iff, Program.ofSource_ok_iff]
  refine exists_congr fun ts => and_congr_right fun hts => ?_
  obtain ⟨body, rfl, hbody⟩ := Lexicon.tokens_ok hts
  have hend : NoEnd body := fun t ht => (hbody t ht).1.not_end
  rw [Expr.ofTokens_iff hend rfl, Program.ofTokens_iff hend rfl, spellsProgram_single_iff]

/-! ## Evaluating -/

/-- The results are the same, but that a function where a number is needed is told in the words for
expressions and in those for programs. -/
inductive SameResult : Except Failure Float → Except Failure Float → Prop
  | refl (r : Except Failure Float) : SameResult r r
  | function (shown : String) (name : Option String) :
    SameResult (.error (.fault (.eval (.functionAsNumber shown name "result"))))
      (.error (.fault (.eval (.functionAsResult shown name))))

/-- The results are the same in this sense, and the same is printed. -/
structure Reply.Agrees (reply reply' : Reply) : Prop where
  result : SameResult reply.result reply'.result
  printed : printedTexts reply'.log = printedTexts reply.log

theorem Settings.evalProgram_single (set : Settings) (f : FrameId) (x : Expr) :
    set.evalProgram f ⟨[.expr x]⟩ =
      (Run.note set.traceRun fun _ =>
        "Evaluating stmt " ++ toString 0 ++ ": " ++ (Stmt.expr x).outline) >>=
      (fun _ => set.eval f x) >>= Run.ofResult := by
  simp only [Settings.evalProgram_eq, Settings.evalStmts, Settings.evalStmt, nextResult, bind_pure]

/-- The line of the trace in front changes nothing but the log. -/
theorem Settings.eval_mirrors_noted (set : Settings) {x : Expr} (hx : x.WellFormed)
    (line : Store → String) :
    Run.Mirrors .traceless Mirror.traceless.value (set.eval Store.root x)
      (Run.note set.traceRun line >>= fun _ => set.eval Store.root x) := by
  have hmatches : Settings.Matches .traceless set set := ⟨rfl, fun h => h.elim⟩
  have hnote : Run.Mirrors .traceless id (Run.note false line) (Run.note set.traceRun line) :=
    .note (fun h => h.elim) fun h => h.elim
  have heval := Settings.eval_mirrors hmatches hx Store.root
  exact hnote.bind (k := fun _ => set.eval Store.root x) fun _ => heval

/-- Two runs end with the same in this sense and in the same store, and print the same. -/
structure Run.EndsSame (end₁ end₂ : Except Fault Float × State) : Prop where
  result : SameResult (end₁.1.mapError .fault) (end₂.1.mapError .fault)
  store : end₁.2.store = end₂.2.store
  printed : printedTexts end₂.2.log.toList = printedTexts end₁.2.log.toList

/-- What comes behind the evaluation says in its own words that a function is no result. -/
theorem Run.endsSame {run run' : Run Value} {s t : State}
    (h : Mirror.traceless.Ends Mirror.traceless.value (run.on s) (run'.on t)) :
    EndsSame ((run >>= Run.toNumber "result").on s) ((run' >>= Run.ofResult).on t) := by
  rw [Run.on_bind, Run.on_bind]
  generalize run.on s = end₁ at h
  generalize run'.on t = end₂ at h
  cases h with
  | error he h =>
    rw [he.2 trivial]
    exact ⟨.refl _, h.store.eq_of_same.symm, h.printed⟩
  | @ok v s₁ t₁ h =>
    have hstore := h.store.eq_of_same
    cases v with
    | number a => exact ⟨.refl _, hstore.symm, h.printed⟩
    | closure c =>
      have hresult : (Run.ofResult (.closure c)).on t₁ = (.error (.eval (.functionAsResult
          (t₁.store.closure c).shown (t₁.store.closure c).name)), t₁) := Run.on_store_bind _ t₁
      rw [hstore] at hresult
      refine ⟨?_, hstore.symm, ?_⟩
      · change SameResult _ (Except.mapError .fault ((Run.ofResult (.closure c)).on t₁).1)
        rw [hresult]
        exact .function _ _
      · change printedTexts ((Run.ofResult (.closure c)).on t₁).2.log.toList = _
        rw [hresult]
        exact h.printed

/-- A single expression gives the same as the program whose one statement it is, and leaves the same
store. -/
theorem Store.evalExpr_same {s : Store} (hs : s.Formed) (set : Settings) {source : String}
    {x : Expr} (h : Expr.ofSource source = .ok x) :
    (s.evalExpr set root source).1.Agrees (s.evalProgram set root source).1 ∧
      (s.evalExpr set root source).2 = (s.evalProgram set root source).2 := by
  have hruns := set.eval_mirrors_noted (Expr.wellFormed_of_ofSource h)
    (fun _ => "Evaluating stmt " ++ toString 0 ++ ": " ++ (Stmt.expr x).outline)
  have hends := Run.endsSame (hruns ⟨s, #[]⟩ ⟨s, #[]⟩ ⟨hs.renumbers_same, rfl, fun h => h.elim⟩)
  rw [← Settings.evalProgram_single] at hends
  unfold Store.evalExpr Store.evalProgram
  rw [h, Expr.ofSource_iff_program.mp h]
  refine ⟨⟨hends.result, ?_⟩, hends.store⟩
  dsimp only [Outcome.reply]
  rw [printedTexts_reading, printedTexts_reading]
  exact hends.printed

/-- A source is a single expression where it is a program whose one statement is this expression.
Then it has the same value in both ways, or fails with the same error, but for the words in which a
function as the result is told, and prints the same. -/
theorem evalExpr_agrees (source : String) (x : Expr) :
    (Expr.ofSource source = .ok x ↔ Program.ofSource source = .ok ⟨[.expr x]⟩) ∧
      (Expr.ofSource source = .ok x →
        ∀ set, (evalExpr set source).Agrees (evalProgram set source)) :=
  ⟨Expr.ofSource_iff_program, fun h set => (Store.evalExpr_same Store.formed_initial set h).1⟩

/-- The value is a function, found after a number is printed, and the run is traced. -/
theorem evalExpr_agrees_function :
    let source := "\n if print(2) then (y => y) else 0;"
    let x : Expr := .conditional (.call "print" [.number 2]) (.lambda ["y"] (.var "y")) (.number 0)
    let set : Settings := ⟨true, true, 8⟩
    Expr.ofSource source = .ok x ∧ Program.ofSource source = .ok ⟨[.expr x]⟩ ∧
      (evalExpr set source).Agrees (evalProgram set source) ∧
      (evalExpr set source).result =
        .error (.fault (.eval (.functionAsNumber "<lambda(y)>" none "result"))) ∧
      (evalProgram set source).result =
        .error (.fault (.eval (.functionAsResult "<lambda(y)>" none))) ∧
      printedTexts (evalProgram set source).log = ["2\n"] := by
  intro source x set
  have hx : Expr.ofSource source = .ok x := by decide +kernel
  obtain ⟨hiff, hagrees⟩ := evalExpr_agrees source x
  exact ⟨hx, hiff.mp hx, hagrees hx set, by decide +kernel, by decide +kernel, by decide +kernel⟩

end Abacus
