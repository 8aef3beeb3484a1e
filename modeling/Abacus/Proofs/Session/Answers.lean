import Abacus.Session
import Abacus.Proofs.Eval.Sites
import Abacus.Proofs.Program.Acceptance
import Abacus.Proofs.Program.WellFormed
import Abacus.Proofs.Token.Spans

/-!
# What a source can be answered

Overflow and operations without a result give infinity or no number, so that only errors of the
language should end an evaluation: what an answer should be is `Promised`. The sum is the exception.
It fails when it has no value, and nothing catches that (`sum_error_escapes`). It is the only one:
an answer is as promised exactly when the run reaches no call of `sum` or `avg` whose arguments have
no sum (`Session.answer_promised_iff`).
-/

namespace Abacus

/-! ## Errors of the reading -/

/-- Reading a source fails at a character, at a token or at the end of the text. -/
inductive SourceError.AtText : SourceError → Prop
  | unexpectedChar (c : Char) (pos : Nat) : AtText (.scan (.unexpectedChar c pos))
  | unexpected {e : ParseError} (h : e.IsUnexpected) : AtText (.parse e)

theorem Program.atText_of_ofSource {source : String} {e : SourceError}
    (h : Program.ofSource source = .error e) : e.AtText := by
  rw [Program.ofSource, sourceTokens] at h
  cases hts : Lexicon.standard.tokens source with
  | error err =>
    rw [hts] at h
    cases h
    have hfail := Lexicon.tokens_error_iff.mp hts
    obtain ⟨c, pos, rfl⟩ := Lexicon.unexpectedChar_of_scanFrom (by decide) 0 _ hfail
    exact .unexpectedChar c pos
  | ok ts =>
    rw [hts] at h
    obtain ⟨body, last, rfl, hscanned⟩ := Lexicon.scanned_of_tokens hts
    cases hp : Program.ofTokens (body ++ [last]) with
    | ok p =>
      simp only [Except.mapError, bind, Except.bind, hp] at h
      cases h
    | error err =>
      simp only [Except.mapError, bind, Except.bind, hp] at h
      cases h
      exact .unexpected (Program.isUnexpected_of_ofTokens hscanned.ends hscanned.numerals_all hp)

/-! ## Errors of sums -/

/-- The site is a call of `sum` or `avg`, and `xs` are the numbers that it adds up. -/
inductive Site.Sums (traced : Bool) : Site → List Float → Prop
  | intro {l f s name args g xs t} (hname : Builtin.ofName? name = some (.variadic g))
      (hargs : (Expr.evalNumbers (callClosure traced l) traced f name args).on s = (.ok xs, t)) :
      Sums traced ⟨l, .call name args, f, s⟩ xs

/-- Only the variadic builtins raise an error that is not the language's own, and only where their
numbers have no sum. -/
theorem Builtin.sum_of_eval {b : Builtin} {xs : List Float} {cause : Number.SumError}
    (h : b.eval xs = .error (.sum cause)) :
    (∃ g, b = .variadic g) ∧ Number.sum xs = .error cause := by
  unfold Builtin.eval at h
  split at h
  · rename_i g x
    cases hg : g.eval x <;> rw [hg] at h <;> cases h
  · rename_i g x y
    cases hg : g.eval x y <;> rw [hg] at h <;> cases h
  · cases h
  · rename_i g x xs
    refine ⟨⟨g, rfl⟩, ?_⟩
    cases hsum : Number.sum (x :: xs) with
    | ok y =>
      cases g <;> simp [VariadicFunction.eval, hsum, Except.mapError, Except.map] at h
    | error cause' =>
      cases g <;> simp [VariadicFunction.eval, hsum, Except.mapError, Except.map] at h <;> rw [h]
  · cases h

theorem VariadicFunction.eval_error {g : VariadicFunction} {xs : List Float}
    {cause : Number.SumError} (h : Number.sum xs = .error cause) : g.eval xs = .error cause := by
  cases g with
  | sum => exact h
  | avg =>
    rw [VariadicFunction.eval, h]
    rfl

theorem Builtin.eval_variadic_error {g : VariadicFunction} {xs : List Float}
    {cause : Number.SumError} (h : Number.sum xs = .error cause) :
    (Builtin.variadic g).eval xs = .error (.sum cause) := by
  cases xs with
  | nil => cases h
  | cons x xs =>
    rw [Builtin.eval, VariadicFunction.eval_error h]
    rfl

/-- Only a sum raises that it has no value. -/
theorem Site.Raises.sums {traced : Bool} {q : Site} {e : Fault} {cause : Number.SumError}
    (h : q.Raises traced e) (he : e = .sum cause) :
    ∃ xs, q.Sums traced xs ∧ Number.sum xs = .error cause := by
  cases h with
  | builtin hb hargs heval =>
    subst he
    obtain ⟨⟨g, rfl⟩, hsum⟩ := Builtin.sum_of_eval heval
    exact ⟨_, .intro hb hargs, hsum⟩
  | _ => cases he

/-- At a call of theirs whose numbers have no sum, evaluation fails with that cause. -/
theorem Site.Sums.fault {traced : Bool} {q : Site} {xs : List Float} {cause : Number.SumError}
    (h : q.Sums traced xs) (hsum : Number.sum xs = .error cause) :
    ∃ t, q.outcome traced = (.error (.sum cause), t) := by
  cases h with
  | @intro l f s name args g _ t hname hargs =>
    obtain ⟨log, hlog⟩ := Run.on_note traced (fun _ => "  builtin " ++ name ++ "(" ++
      ", ".intercalate (xs.map Number.text) ++ ")") t
    refine ⟨⟨t.store, log⟩, ?_⟩
    unfold Site.outcome
    rw [Expr.eval, hname]
    refine (Run.on_bind_ok hargs).trans ((Run.on_bind_ok hlog).trans (Run.on_bind_error ?_))
    rw [Run.builtin, Builtin.eval_variadic_error hsum]
    rfl

/-! ## Answers -/

/-- What the answer to a source should be: a number or an error of the language, unless calls are
nested too deep. -/
inductive Promised : Except Failure Float → Prop
  | number (x : Float) : Promised (.ok x)
  | unread {e : SourceError} (h : e.AtText) : Promised (.error (.source e))
  | noValue (e : EvalError) : Promised (.error (.fault (.eval e)))
  | tooDeep : Promised (.error (.fault .tooDeep))

/-- The run of a source comes to a call of `sum` or `avg` whose arguments have no sum. -/
inductive Store.LacksSum (s : Store) (set : Settings) (f : FrameId) (source : String) : Prop
  | intro {p : Program} {q : Site} {xs : List Float} {cause : Number.SumError}
      (hp : Program.ofSource source = .ok p) (hq : p.Reaches set f ⟨s, #[]⟩ q)
      (hsums : q.Sums set.traceRun xs) (hcause : Number.sum xs = .error cause)

/-- A source that was read is answered by the run of its program. -/
theorem Store.evalProgram_result {s : Store} {set : Settings} {f : FrameId} {source : String}
    {p : Program} (hp : Program.ofSource source = .ok p) :
    (s.evalProgram set f source).1.result =
      ((set.evalProgram f p).on ⟨s, #[]⟩).1.mapError .fault := by
  unfold Store.evalProgram
  rw [hp]
  rfl

theorem Store.promised_iff (s : Store) (set : Settings) (f : FrameId) (source : String) :
    Promised (s.evalProgram set f source).1.result ↔ ¬ s.LacksSum set f source := by
  constructor
  · rintro hpromised ⟨hp, hq, hsums, hcause⟩
    obtain ⟨t, hfault⟩ := hsums.fault hcause
    rw [Store.evalProgram_result hp, Program.fault_of_reaches hq hfault] at hpromised
    cases hpromised
  · intro hno
    cases hp : Program.ofSource source with
    | error e =>
      unfold Store.evalProgram
      rw [hp]
      exact .unread (Program.atText_of_ofSource hp)
    | ok p =>
      rw [Store.evalProgram_result hp]
      cases hrun : (set.evalProgram f p).on ⟨s, #[]⟩ with | mk r t =>
      match r with
      | .ok x => exact .number x
      | .error (.eval e) => exact .noValue e
      | .error .tooDeep => exact .tooDeep
      | .error (.sum cause) =>
        -- A run that fails with a sum's error fails at a call that was reached, and only a sum
        -- raises that error.
        rcases Program.fault_origin p hrun with ⟨q, hq, hraises, -⟩ | ⟨_, _, _, _, _, he⟩ |
          ⟨_, _, he⟩
        · obtain ⟨xs, hsums, hcause⟩ := hraises.sums rfl
          exact absurd (.intro hp hq hsums hcause) hno
        · cases he
        · cases he

theorem Session.eval_result (s : Session) (set : Settings) (source : String) :
    (s.eval set source).1.result = (s.store.evalProgram set Store.root source).1.result := by
  unfold Session.eval
  cases h : (s.store.evalProgram set Store.root source).1.result with
  | ok x => simp only [h]
  | error e => simp only [h]

/-- A source that is evaluated on its own, or in a session whatever is bound there, is answered as
promised exactly when the run does not come to a sum without a value. -/
theorem Session.answer_promised_iff (s : Session) (set : Settings) (source : String) :
    (Promised (evalProgram set source).result ↔
      ¬ Store.initial.LacksSum set Store.root source) ∧
    (Promised (s.eval set source).1.result ↔ ¬ s.store.LacksSum set Store.root source) := by
  rw [Session.eval_result]
  exact ⟨Store.promised_iff _ set Store.root source, Store.promised_iff _ set Store.root source⟩

/-- Both infinities have no sum, and the answer to their sum is neither a number nor an error of the
language. Ten, squared nine times, is infinite. -/
theorem sum_error_escapes :
    let source := "def f(x, n) = if n == 0 then x else f(x * x, n - 1); sum(f(10, 9), -f(10, 9))"
    (evalProgram ⟨false, false, 16⟩ source).result =
        .error (.fault (.sum .oppositeInfinities)) ∧
      ¬ Promised (evalProgram ⟨false, false, 16⟩ source).result := by
  intro source
  have hresult : (evalProgram ⟨false, false, 16⟩ source).result =
      .error (.fault (.sum .oppositeInfinities)) := by
    decide +kernel
  refine ⟨hresult, fun h => ?_⟩
  rw [hresult] at h
  cases h

end Abacus
