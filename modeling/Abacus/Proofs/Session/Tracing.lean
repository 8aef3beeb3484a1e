import Abacus.Proofs.Eval.Lines
import Abacus.Proofs.Session.Checkpoint
import Mathlib.Data.List.SplitBy

/-!
# Traces change nothing

A source may be evaluated with a trace of its reading, of its run, or of both. What it gives is what
it gives without: the same value or the same error, the same store behind it, and the same printed
text (`Session.tracing_transparent`). Where printed text goes to the standard output as traces do,
the lines of the traces can be deleted from there, and what stays is what the untraced evaluation
writes. This holds also where the reading or the run fails midway.

* `Run.start_traced`: of two runs that mirror each other but for traces, both end alike and print
  the same, and what each writes are lines.
* `withoutTrace_standardText`: so that deleting lines leaves the text of the untraced run. No line
  of a trace is broken, and no printed line has the mark of a trace.
* `Session.Reachable.wordy`: in sessions that can come up, the names of functions can be written.
-/

namespace Abacus

/-! ## Lines of a text -/

/-- The lines of a text, each with its line break; the last one may have none. -/
def textLines (cs : List Char) : List (List Char) := cs.splitBy fun c _ => c ≠ '\n'

/-- The text without the lines of traces. -/
def withoutTrace (s : String) : String :=
  String.ofList ((textLines s.toList).filter fun line => !isMarked line).flatten

theorem textLines_line {line : List Char} (h : '\n' ∉ line) (rest : List Char) :
    textLines (line ++ '\n' :: rest) = (line ++ ['\n']) :: textLines rest := by
  have hline : (line ++ ['\n']).Pairwise fun c _ => decide (c ≠ '\n') := by
    refine List.pairwise_append.mpr ⟨?_, List.pairwise_singleton _ _, fun c hc _ _ => ?_⟩
    · exact List.pairwise_of_forall_mem_list fun c hc _ _ =>
        decide_eq_true (ne_of_mem_of_not_mem hc h)
    · exact decide_eq_true (ne_of_mem_of_not_mem hc h)
  have hne : line ++ ['\n'] ≠ [] := List.append_ne_nil_of_right_ne_nil _ (List.cons_ne_nil _ _)
  unfold textLines
  rw [List.append_cons, List.splitBy_append, List.splitBy_of_isChain hne hline.isChain,
    List.singleton_append]
  intro c hc _ _
  rw [List.getLast?_concat] at hc
  cases hc
  rfl

section Deleted

variable {line : String}

theorem withoutTrace_line (h : Unbroken line) (rest : String) :
    withoutTrace (line ++ "\n" ++ rest) =
      (if isMarked (line ++ "\n").toList then "" else line ++ "\n") ++ withoutTrace rest := by
  have hcs : (line ++ "\n" ++ rest).toList = line.toList ++ '\n' :: rest.toList := by
    rw [String.toList_append, String.toList_append, List.append_assoc]
    rfl
  have hline : line.toList ++ ['\n'] = (line ++ "\n").toList := by
    rw [String.toList_append]
    rfl
  unfold withoutTrace
  rw [hcs, textLines_line h, List.filter_cons, hline]
  by_cases hmark : isMarked (line ++ "\n").toList
  · rw [if_pos hmark, hmark, String.empty_append]
    rfl
  · rw [if_neg hmark, eq_false_of_ne_true hmark]
    simp only [Bool.not_false, if_true, List.flatten_cons, String.ofList_append,
      String.ofList_toList]

theorem TraceLine.deleted (h : TraceLine line) (rest : String) :
    withoutTrace (line ++ "\n" ++ rest) = withoutTrace rest := by
  rw [withoutTrace_line h.unbroken, if_pos (isMarked_append "\n" h.marked), String.empty_append]

/-- No mark of a trace can be made from the characters of numbers. -/
theorem not_isMarked_plain (x : Float) : ¬ isMarked (Number.plain x ++ "\n").toList := by
  have hmarks : ∀ mark ∈ traceMarks, '[' ∈ mark.toList := List.all_iff_forall_prop.mp (by decide)
  unfold isMarked
  rw [List.any_eq_true]
  rintro ⟨mark, hmark, hprefix⟩
  have hbracket : '[' ∈ (Number.plain x ++ "\n").toList :=
    (List.isPrefixOf_iff_prefix.mp hprefix).subset (hmarks mark hmark)
  rw [String.toList_append, List.mem_append] at hbracket
  rcases hbracket with h | h
  · exact absurd (Number.inText_plain x _ h) (by decide)
  · exact absurd h (by decide)

theorem printed_kept (x : Float) (rest : String) :
    withoutTrace (Number.plain x ++ "\n" ++ rest) =
      Number.plain x ++ "\n" ++ withoutTrace rest := by
  rw [withoutTrace_line (unbroken_plain x), if_neg (not_isMarked_plain x)]

end Deleted

/-! ## What a log writes -/

/-- Where printed text goes: to a sink of its own, or to the standard output like traces. -/
inductive Sink where
  | own
  | standardOutput
deriving Repr, DecidableEq

namespace Sink

/-- The text in the sink of its own. -/
def ownText (log : List Emission) : Sink → String
  | own => String.join (printedTexts log)
  | standardOutput => ""

/-- What something that is written adds to the standard output. -/
def standardPart : Sink → Emission → String
  | own, .printed _ => ""
  | standardOutput, .printed text => text
  | _, .traced line => line ++ "\n"

/-- The text in the standard output. -/
def standardText (log : List Emission) (sink : Sink) : String :=
  String.join (log.map sink.standardPart)

end Sink

/-- Of a log of lines, what is printed stays in the standard output when the lines of the trace are
deleted. -/
theorem withoutTrace_of_lines {log : List Emission} (h : ∀ e ∈ log, e.IsLine true) (sink : Sink) :
    withoutTrace (sink.standardText log) =
      sink.standardText ((printedTexts log).map .printed) := by
  unfold Sink.standardText
  induction log with
  | nil => rfl
  | cons e log ih =>
    obtain ⟨he, hlog⟩ := List.forall_mem_cons.mp h
    rw [List.map_cons, String.join_cons]
    cases he with
    | printed x =>
      have hprinted : printedTexts (.printed (Number.plain x ++ "\n") :: log) =
          (Number.plain x ++ "\n") :: printedTexts log := rfl
      rw [hprinted, List.map_cons, List.map_cons, String.join_cons, ← ih hlog]
      cases sink with
      | own => simp only [Sink.standardPart, String.empty_append]
      | standardOutput => exact printed_kept x _
    | traced _ hline =>
      rw [Sink.standardPart, hline.deleted, ih hlog]
      rfl

/-- An untraced log is what is printed. -/
theorem eq_printed_of_lines {log : List Emission} (h : ∀ e ∈ log, e.IsLine false) :
    log = (printedTexts log).map .printed := by
  induction log with
  | nil => rfl
  | cons e log ih =>
    obtain ⟨he, hlog⟩ := List.forall_mem_cons.mp h
    cases he with
    | printed x => exact congrArg (List.cons _) (ih hlog)
    | traced htracing => cases htracing

/-- Two logs, of which the first one may have a trace: the same is printed, and every entry is a
line. -/
structure Traced (log log' : List Emission) : Prop where
  printed : printedTexts log = printedTexts log'
  lines : ∀ e ∈ log, e.IsLine true
  bare : ∀ e ∈ log', e.IsLine false

theorem withoutTrace_standardText {log log' : List Emission} (h : Traced log log') (sink : Sink) :
    withoutTrace (sink.standardText log) = sink.standardText log' := by
  rw [withoutTrace_of_lines h.lines, h.printed, ← eq_printed_of_lines h.bare]

/-! ## Traced runs -/

theorem Emission.IsLine.of_tracing {tracing : Bool} {e : Emission} (h : e.IsLine tracing) :
    e.IsLine true := by
  cases h with
  | printed x => exact .printed x
  | traced _ hline => exact .traced rfl hline

/-- Two runs that work on the same store and print the same, traced or not. -/
def Mirror.traceless : Mirror := ⟨.same, True, False, []⟩

/-- The settings without traces. -/
def Settings.untraced (set : Settings) : Settings := ⟨false, false, set.limit⟩

theorem Settings.matches_untraced (set : Settings) : Settings.Matches .traceless set set.untraced :=
  ⟨rfl, fun h => h.elim⟩

/-- A run and the same run without a trace end alike, with the same store, and print the same. -/
theorem Run.start_traced {α : Type} {run run' : Run α} {traced : Bool}
    (hruns : Mirrors .traceless id run run') (hrun : run.KeepsLines traced)
    (hrun' : run'.KeepsLines false) {s : Store} (hs : s.Formed) (hwordy : s.Wordy) :
    (run.start s).result = (run'.start s).result ∧ (run.start s).store = (run'.start s).store ∧
      Traced (run.start s).log (run'.start s).log := by
  have hlined : ∀ traced, (State.mk s #[]).Lined traced := fun _ =>
    ⟨hwordy, fun _ he => (by cases he)⟩
  have hlines := (hrun _ (hlined _)).lines
  have hlines' := (hrun' _ (hlined _)).lines
  have hends := hruns ⟨s, #[]⟩ ⟨s, #[]⟩ ⟨hs.renumbers_same, rfl, fun h => h.elim⟩
  unfold Run.start
  unfold Run.after Run.on at hlines hlines'
  unfold Run.on at hends
  generalize (ExceptT.run run).run ⟨s, #[]⟩ = end₁ at hends hlines
  generalize (ExceptT.run run').run ⟨s, #[]⟩ = end₂ at hends hlines'
  cases hends with
  | ok h =>
    exact ⟨rfl, h.store.eq_of_same.symm, h.printed.symm, fun e he => (hlines e he).of_tracing,
      hlines'⟩
  | error he h =>
    exact ⟨congrArg Except.error (he.2 trivial).symm, h.store.eq_of_same.symm, h.printed.symm,
      fun e he => (hlines e he).of_tracing, hlines'⟩

/-! ## Sources -/

/-- An evaluation that may be traced, and the same one without a trace: they give the same and leave
the same behind, and their texts are the same when the lines of traces are deleted. -/
structure Transparent {α : Type} (sink : Sink) (answer answer' : Reply × α) : Prop where
  result : answer.1.result = answer'.1.result
  left : answer.2 = answer'.2
  own : sink.ownText answer.1.log = sink.ownText answer'.1.log
  standard : withoutTrace (sink.standardText answer.1.log) = sink.standardText answer'.1.log

theorem Transparent.of_traced {α : Type} {sink : Sink} {answer answer' : Reply × α}
    (hresult : answer.1.result = answer'.1.result) (hleft : answer.2 = answer'.2)
    (hlog : Traced answer.1.log answer'.1.log) : Transparent sink answer answer' where
  result := hresult
  left := hleft
  own := by
    cases sink with
    | own => exact congrArg String.join hlog.printed
    | standardOutput => rfl
  standard := withoutTrace_standardText hlog sink

section Reading

variable {readTrace : List Token → List String} {source : String}
  (hread : ∀ ts, Lexicon.standard.tokens source = .ok ts → ∀ line ∈ readTrace ts, TraceLine line)
include hread

/-- The trace of the reading stands before what the run writes. -/
theorem Traced.after_reading {log log' : List Emission} (h : Traced log log') (set : Settings) :
    Traced (set.readingLog readTrace source ++ log)
      (set.untraced.readingLog readTrace source ++ log') := by
  have hbare : set.untraced.readingLog readTrace source = [] := rfl
  have hlines : ∀ e ∈ set.readingLog readTrace source, e.IsLine true := by
    unfold Settings.readingLog
    split
    · rw [List.forall_mem_map]
      exact fun line hline => .traced rfl (traceLine_of_sourceTrace hread line hline)
    · exact fun e he => by cases he
  rw [hbare, List.nil_append]
  refine ⟨?_, List.forall_mem_append.mpr ⟨hlines, h.lines⟩, h.bare⟩
  rw [printedTexts_reading, h.printed]

theorem Traced.reading (set : Settings) : Traced (set.readingLog readTrace source)
    (set.untraced.readingLog readTrace source) := by
  have hnone : Traced [] [] := ⟨rfl, fun e he => (by cases he), fun e he => (by cases he)⟩
  have hread := hnone.after_reading hread set
  rwa [List.append_nil, List.append_nil] at hread

/-- The answers of a traced and an untraced run, each behind the lines about the reading. -/
theorem Transparent.of_runs {run run' : Run Float} {traced : Bool}
    (hruns : Run.Mirrors .traceless id run run') (hrun : run.KeepsLines traced)
    (hrun' : run'.KeepsLines false) {s : Store} (hs : s.Formed) (hwordy : s.Wordy) (set : Settings)
    (sink : Sink) :
    Transparent sink ((run.start s).reply (set.readingLog readTrace source), (run.start s).store)
      ((run'.start s).reply (set.untraced.readingLog readTrace source), (run'.start s).store) := by
  obtain ⟨hresult, hstore, hlog⟩ := Run.start_traced hruns hrun hrun' hs hwordy
  exact .of_traced (congrArg (Except.mapError Failure.fault) hresult) hstore
    (hlog.after_reading hread set)

end Reading

namespace Store

variable {s : Store}

theorem evalProgram_transparent (hs : s.Formed) (hwordy : s.Wordy) (set : Settings)
    (source : String) (sink : Sink) :
    Transparent sink (s.evalProgram set root source) (s.evalProgram set.untraced root source) := by
  have hread : ∀ ts, Lexicon.standard.tokens source = .ok ts →
      ∀ line ∈ Program.readTrace ts, TraceLine line := fun _ => Program.traceLine_of_readTrace
  unfold Store.evalProgram
  cases hp : Program.ofSource source with
  | error e => exact .of_traced rfl rfl (.reading hread set)
  | ok p =>
    have hformed := Program.wellFormed_of_ofSource hp
    have hlines := fun set : Settings => set.evalProgram_keepsLines hformed root
    exact .of_runs hread (Settings.evalProgram_mirrors set.matches_untraced hformed root)
      (hlines set) (hlines set.untraced) hs hwordy set sink

theorem evalExpr_transparent (hs : s.Formed) (hwordy : s.Wordy) (set : Settings) (source : String)
    (sink : Sink) :
    Transparent sink (s.evalExpr set root source) (s.evalExpr set.untraced root source) := by
  have hread : ∀ ts, Lexicon.standard.tokens source = .ok ts →
      ∀ line ∈ Expr.readTrace ts, TraceLine line := fun _ => Expr.traceLine_of_readTrace
  unfold Store.evalExpr
  cases hx : Expr.ofSource source with
  | error e => exact .of_traced rfl rfl (.reading hread set)
  | ok x =>
    have hformed := Expr.wellFormed_of_ofSource hx
    have hlines := fun set : Settings => set.evalNumber_keepsLines hformed root
    have hruns := (Settings.eval_mirrors set.matches_untraced hformed root).bind fun v =>
      mirrors_toNumber "result" v
    exact .of_runs hread hruns (hlines set) (hlines set.untraced) hs hwordy set sink

end Store

/-! ## Sessions -/

namespace Session

variable {s : Session} {saved : List (Bindings Value)}

theorem wordy_eval (hs : s.store.Wordy) (set : Settings) (source : String) :
    (s.eval set source).2.store.Wordy := by
  have hran : (s.ran set source).store.Wordy := by
    unfold ran
    cases hp : Program.ofSource source with
    | error e => exact hs
    | ok p =>
      dsimp only
      have hlines := set.evalProgram_keepsLines (Program.wellFormed_of_ofSource hp) Store.root
      exact (hlines s.start ⟨hs, fun _ he => (by cases he)⟩).wordy
  rw [eval_snd]
  split
  · exact hran
  · exact hran.of_closures rfl

theorem Reachable.wordy (h : Reachable s saved) : s.store.Wordy := by
  induction h with
  | empty => exact Store.wordy_initial
  | set _ hset ih =>
    obtain ⟨-, x, rfl⟩ := bind_of_set hset
    exact ih
  | eval set source _ ih => exact wordy_eval ih set source
  | snapshot _ ih => exact ih
  | restore _ _ ih => exact ih
  | call set name _ _ _ ih =>
    exact Store.wordy_of_callClosure set.traceRun set.limit _ _ name (s := ⟨_, #[]⟩) ih

theorem eval_transparent {set set' : Settings} {source : String} {sink : Sink}
    (h : Transparent sink (s.store.evalProgram set Store.root source)
      (s.store.evalProgram set' Store.root source)) :
    Transparent sink (s.eval set source) (s.eval set' source) := by
  unfold Session.eval
  generalize s.store.evalProgram set Store.root source = answer at h
  generalize s.store.evalProgram set' Store.root source = answer' at h
  obtain ⟨⟨result, log⟩, t⟩ := answer
  obtain ⟨⟨result', log'⟩, t'⟩ := answer'
  obtain ⟨hresult, hleft, hown, hstandard⟩ := h
  cases hresult
  cases hleft
  cases result with
  | ok x => exact ⟨rfl, rfl, hown, hstandard⟩
  | error e => exact ⟨rfl, rfl, hown, hstandard⟩

/-- Evaluating a source in a session, as a program or as a single expression, gives the same with
traces as without: the same value or error, the same session behind it with the same bindings and
names of functions, and the same printed text. -/
theorem tracing_transparent (h : Reachable s saved) (set : Settings) (source : String)
    (sink : Sink) :
    Transparent sink (s.eval set source) (s.eval set.untraced source) ∧
      Transparent sink (s.store.evalExpr set Store.root source)
        (s.store.evalExpr set.untraced Store.root source) :=
  ⟨eval_transparent (Store.evalProgram_transparent h.formed h.wordy set source sink),
    Store.evalExpr_transparent h.formed h.wordy set source sink⟩

/-- The run fails after it printed two numbers, between lines of the trace. -/
theorem tracing_transparent_failing :
    let s := (Session.empty.eval ⟨false, false, 8⟩ "k = 2").2
    let source := "f = x => print(x); print(k) # 2\nf(3) / 0"
    let traced := s.eval ⟨true, true, 8⟩ source
    let untraced := s.eval ⟨false, false, 8⟩ source
    Reachable s [] ∧ traced.1.log.length = 68 ∧ untraced.1.log.length = 2 ∧
      Transparent .standardOutput traced untraced ∧
      traced.1.result = .error (.fault (.eval (.divisionByZero .quotient))) ∧
      withoutTrace (Sink.standardOutput.standardText traced.1.log) = "2\n3\n" := by
  intro s source traced untraced
  have hreachable : Reachable s [] := .eval ⟨false, false, 8⟩ _ .empty
  have htransparent : Transparent .standardOutput traced untraced :=
    (tracing_transparent hreachable ⟨true, true, 8⟩ source .standardOutput).1
  refine ⟨hreachable, by decide +kernel, by decide +kernel, htransparent, by decide +kernel, ?_⟩
  rw [htransparent.standard]
  decide +kernel

end Session

end Abacus
