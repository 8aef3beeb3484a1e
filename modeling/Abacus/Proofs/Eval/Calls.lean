import Abacus.Proofs.Eval.Substitution

/-!
# Calls in stores that come up

What a call relies on: the function was made in a frame that is there, and its parameters are not
reserved, so that they stand for the arguments wherever the body names them. `Store.Callable` says
this of all functions of a store, and it holds in every store that can come up
(`Store.Reachable.callable`), in a session or not (`Session.Reachable.reachable_store`).

In such a store calling a function with numbers does what its body does with the numbers written
into it, in the frame where the function was made (`Store.call_substitutes`).
-/

namespace Abacus

/-! ## Stores that come up -/

namespace Store

/-- Functions were made in frames that are there, and their parameters are not reserved. -/
structure Callable (s : Store) : Prop where
  root_exists : root < s.frames.size
  frame_exists : ∀ c, (s.closure c).frame < s.frames.size
  params_free : ∀ c, ∀ p ∈ (s.closure c).params, reservedKind? p = none

variable {s t : Store}

theorem callable_initial : initial.Callable where
  root_exists := by decide
  frame_exists _ := by
    rw [closure_missing rfl]
    decide
  params_free _ p hp := by
    rw [closure_missing rfl] at hp
    cases hp

/-- Frames may be added and changed. -/
theorem Callable.of_closures (hs : s.Callable) (hframes : s.frames.size ≤ t.frames.size)
    (hclosures : t.closures = s.closures) : t.Callable := by
  have hclosure : ∀ c, t.closure c = s.closure c := fun c => by
    unfold Store.closure
    rw [hclosures]
  refine ⟨Nat.lt_of_lt_of_le hs.root_exists hframes, fun c => ?_, fun c => ?_⟩
  · rw [hclosure]
    exact Nat.lt_of_lt_of_le (hs.frame_exists c) hframes
  · rw [hclosure]
    exact hs.params_free c

theorem Callable.addClosure (hs : s.Callable) {c : Closure} (hframe : c.frame < s.frames.size)
    (hparams : ∀ p ∈ c.params, reservedKind? p = none) : (s.addClosure c).2.Callable := by
  refine ⟨hs.root_exists, fun i => ?_, fun i => ?_⟩
  · rw [closure_addClosure]
    split
    · exact hframe
    · exact hs.frame_exists i
  · rw [closure_addClosure]
    split
    · exact hparams
    · exact hs.params_free i

theorem Callable.nameClosure (hs : s.Callable) (c : ClosureId) (name : String) :
    (s.nameClosure c name).Callable := by
  refine ⟨hs.root_exists, fun i => ?_, fun i => ?_⟩
  · rw [closure_nameClosure]
    split
    · exact hs.frame_exists i
    · exact hs.frame_exists i
  · rw [closure_nameClosure]
    split
    · exact hs.params_free i
    · exact hs.params_free i

theorem Callable.setBindings (hs : s.Callable) (f : FrameId) (b : Bindings Value) :
    (s.setBindings f b).Callable :=
  hs.of_closures (by rw [Store.setBindings, Array.size_modify]) rfl

theorem Callable.bind (hs : s.Callable) (f : FrameId) (name : String) (v : Value) :
    (s.bind f name v).Callable :=
  hs.of_closures (by rw [Store.bind, Array.size_modify]) rfl

/-! ### Runs -/

/-- Keeping functions callable, without removing frames. -/
def callability : Policy := { formation with holds := fun s => s.store.Callable }

theorem evaluates_callability :
    callability.Evaluates (fun _ _ => True) fun s f => f < s.store.frames.size where
  valid_of_allows _ _ := trivial
  current_of_allows h hf := Nat.lt_of_lt_of_le hf h
  number _ _ := trivial
  lookup _ _ _ := trivial
  write _ hs := ⟨hs, Nat.le_refl _⟩
  makeClosure _ hs hf hparams := ⟨Callable.addClosure hs hf hparams, Nat.le_refl _, trivial⟩
  openFrame {s c args} hs _ _ := by
    intro frame
    have hsize : s.store.frames.size < (s.openFrame frame).store.frames.size := by
      unfold State.openFrame
      rw [Array.size_push]
      exact Nat.lt_succ_self _
    exact ⟨Callable.of_closures hs (Nat.le_of_lt hsize) rfl, Nat.le_of_lt hsize, hsize⟩

theorem assigns_callability (f : FrameId) (names : List String) :
    callability.Assigns (fun _ _ => True) (fun _ _ => True) f names where
  bindable_of_allows _ _ := trivial
  number _ _ := trivial
  nameClosure hs _ _ _ := ⟨Callable.nameClosure hs _ _, Nat.le_refl _, trivial⟩
  bind {s name v} hs _ _ _ := by
    refine ⟨Callable.bind hs f name v, Nat.le_of_eq ?_⟩
    exact Array.size_modify.symm

/-- Stores that can come up: by operations and calls of functions from outside, at every moment of a
program at which it evaluates an expression or calls a function, and by setting the bindings of a
frame back to earlier ones, of which some are saved. -/
inductive Reachable : Store → List (Bindings Value) → Prop
  | initial : Reachable initial []
  | step {s t : Store} {saved : List (Bindings Value)} (h : Reachable s saved) (hstep : Step s t) :
      Reachable t saved
  | call {s : Store} {saved : List (Bindings Value)} (traced : Bool) (limit : Nat) {c : ClosureId}
      {args : List Value} (name : Option String) (h : Reachable s saved)
      (hc : (Value.closure c).Exists s) (hargs : ∀ v ∈ args, v.Exists s) :
      Reachable ((callClosure traced limit c args name).start s).store saved
  | during {s : Store} {saved : List (Bindings Value)} {set : Settings} {f : FrameId} {p : Program}
      {q : Site} (h : Reachable s saved) (hf : f < s.frames.size)
      (hq : p.Reaches set f ⟨s, #[]⟩ q) : Reachable q.state.store saved
  | calling {s : Store} {saved : List (Bindings Value)} {set : Settings} {f : FrameId} {p : Program}
      {q : Site} {name : String} {c : ClosureId} {args : List Value} {t : State}
      (h : Reachable s saved) (hf : f < s.frames.size) (hq : p.Reaches set f ⟨s, #[]⟩ q)
      (hcall : q.Calls set.traceRun name c args t) : Reachable t.store saved
  | snapshot {s : Store} {saved : List (Bindings Value)} (f : FrameId) (h : Reachable s saved) :
      Reachable s (s.bindings f :: saved)
  | restore {s : Store} {saved : List (Bindings Value)} (f : FrameId) {b : Bindings Value}
      (h : Reachable s saved) (hb : b ∈ saved) : Reachable (s.setBindings f b) saved

variable {saved : List (Bindings Value)}

theorem callable_perform (hs : s.Callable) {op : Operation} (hop : op.frame < s.frames.size) :
    (s.perform op).Callable := by
  cases op with
  | child f entries =>
    refine hs.of_closures ?_ rfl
    rw [perform, addFrame, Array.size_push]
    exact Nat.le_succ _
  | bind f name v => exact hs.bind f name v
  | run f set p =>
    exact (Settings.evalProgram_obeys evaluates_callability (assigns_callability f _) set p
      (fun _ h => h) (s := ⟨s, #[]⟩) hs hop).holds
  | eval f set x =>
    exact (Settings.eval_obeys evaluates_callability set x (s := ⟨s, #[]⟩) hs hop).holds

/-- Wherever a program evaluates an expression, the frame is there and functions can be called. -/
theorem ready_of_reaches (hs : s.Callable) {set : Settings} {f : FrameId} {p : Program} {q : Site}
    (hf : f < s.frames.size) (hq : p.Reaches set f ⟨s, #[]⟩ q) :
    q.Ready callability fun s f _ => f < s.store.frames.size := by
  have hstart : callability.holds ⟨s, #[]⟩ := hs
  exact Program.ready_of_reaches evaluates_callability.guides (assigns_callability f _)
    (fun _ h => h) hstart (fun _ _ => hf) hq

theorem callable_of_calls {traced : Bool} {q : Site} {name : String} {c : ClosureId}
    {args : List Value} {t : State} (hq : q.Ready callability fun s f _ => f < s.store.frames.size)
    (h : q.Calls traced name c args t) : t.store.Callable := by
  have hguides := evaluates_callability.guides
  cases h with
  | @intro l f s name xs c vs t _ _ hargs =>
    exact ((Expr.evalList_guided hguides (callClosure_guided hguides traced l) xs hq.1
      fun _ _ => hq.2).on hargs).1

theorem Reachable.callable (h : Reachable s saved) : s.Callable := by
  induction h with
  | initial => exact callable_initial
  | step _ hstep ih =>
    obtain ⟨op, hop, rfl⟩ := hstep
    exact callable_perform ih hop.frame_exists
  | @call s _ traced limit _ _ name _ _ _ ih =>
    exact (callClosure_obeys evaluates_callability traced limit (s := ⟨s, #[]⟩) ih trivial
      fun _ _ => trivial).holds
  | during _ hf hq ih => exact (ready_of_reaches ih hf hq).1
  | calling _ hf hq hcall ih => exact callable_of_calls (ready_of_reaches ih hf hq) hcall
  | snapshot _ _ ih => exact ih
  | restore f _ _ ih => exact ih.setBindings f _

end Store

/-- Stores of sessions come up, together with all that is saved. -/
theorem Session.Reachable.reachable_store {s : Session} {saved : List (Bindings Value)}
    (h : Session.Reachable s saved) : ∃ saved', saved ⊆ saved' ∧ s.store.Reachable saved' := by
  induction h with
  | empty => exact ⟨[], List.Subset.refl _, .initial⟩
  | @set s s' saved name value _ hset ih =>
    obtain ⟨saved', hsaved, hs⟩ := ih
    obtain ⟨-, x, rfl⟩ := bind_of_set hset
    -- To set a value is to bind a number at the root.
    refine ⟨saved', hsaved, hs.step ⟨.bind Store.root name (.number x), ⟨?_, ?_⟩, rfl⟩⟩
    · exact hs.callable.root_exists
    · exact List.forall_mem_singleton.mpr trivial
  | @eval s saved set source _ ih =>
    obtain ⟨saved', hsaved, hs⟩ := ih
    -- Rolled back or not, the program ran first, with the bindings of before among those saved.
    have hran : (s.ran set source).store.Reachable (s.bindings :: saved') := by
      unfold Session.ran
      cases Program.ofSource source with
      | error e => exact hs.snapshot Store.root
      | ok p =>
        refine (hs.snapshot Store.root).step ⟨.run Store.root set p, ⟨?_, ?_⟩, rfl⟩
        · exact hs.callable.root_exists
        · exact fun v hv => by cases hv
    refine ⟨s.bindings :: saved', List.subset_cons_of_subset _ hsaved, ?_⟩
    rw [eval_snd]
    split
    · exact hran
    · exact hran.restore Store.root List.mem_cons_self
  | @snapshot s saved _ ih =>
    obtain ⟨saved', hsaved, hs⟩ := ih
    exact ⟨s.bindings :: saved', List.cons_subset_cons _ hsaved, hs.snapshot Store.root⟩
  | restore _ hb ih =>
    obtain ⟨saved', hsaved, hs⟩ := ih
    exact ⟨saved', hsaved, hs.restore Store.root (hsaved hb)⟩
  | call set name _ hc hargs ih =>
    obtain ⟨saved', hsaved, hs⟩ := ih
    exact ⟨saved', hsaved, hs.call set.traceRun set.limit name hc hargs⟩

/-! ## Numbers for parameters -/

namespace Numbers

/-- The numbers with which a function is called, for its parameters. -/
def ofParams (params : List String) (xs : List Float) : Numbers :=
  fun n => Bindings.findEntry n (params.zip xs)

variable {params : List String} {xs : List Float} {n : String}

theorem mem_of_ofParams (h : ofParams params xs n ≠ .none) : n ∈ params := by
  by_contra hn
  refine h (Bindings.get?_eq_none_iff (b := ⟨params.zip xs⟩).mpr fun hmem => ?_)
  obtain ⟨e, he, rfl⟩ := List.mem_map.mp hmem
  exact hn (List.of_mem_zip he).1

/-- What the frame of the call binds. -/
theorem get?_ofList_zip (hparams : params.Nodup) (hxs : xs.length = params.length) (n : String) :
    (Bindings.ofList (params.zip (xs.map Value.number))).get? n =
      (ofParams params xs n).map .number := by
  have hnames : ((params.zip (xs.map Value.number)).map Prod.fst).Nodup := by
    rwa [List.map_fst_zip (by rw [List.length_map, hxs])]
  unfold Bindings.get? ofParams
  rw [Bindings.entries_ofList hnames]
  clear hparams hxs hnames
  induction params generalizing xs with
  | nil => rfl
  | cons p params ih =>
    cases xs with
    | nil => rfl
    | cons x xs =>
      simp only [List.map_cons, List.zip_cons_cons, Bindings.findEntry]
      split
      · rfl
      · exact ih

end Numbers

/-! ## Calls -/

namespace Store

variable {s : Store} {saved : List (Bindings Value)}

/-- A call opens a frame and prints nothing before its body is evaluated. -/
theorem on_callClosure {c : ClosureId} {args : List Value}
    (harity : args.length = (s.closure c).arity) (traced : Bool) (limit : Nat)
    (name : Option String) : ∃ log : Array Emission,
    (callClosure traced (limit + 1) c args name).on ⟨s, #[]⟩ =
      ((s.closure c).body.eval (callClosure traced limit) traced s.frames.size).on
        ⟨(s.addFrame (.ofList ((s.closure c).params.zip args)) (some (s.closure c).frame)).2, log⟩ ∧
      printedTexts log.toList = [] := by
  rw [on_callClosure_succ harity, openCall]
  dsimp only
  rw [bind_assoc, Run.on_bind_ok (Run.on_add _ _), bind_assoc]
  obtain ⟨log, hnote, hlog⟩ := Run.Corresponds.on_note_printed traced (fun t => "  call " ++
    (s.closure c).label name ++ "(" ++ t.shownList args ++ ") depth=" ++
      toString (t.depth s.frames.size))
    ⟨(s.addFrame (.ofList ((s.closure c).params.zip args)) (some (s.closure c).frame)).2, #[]⟩
  refine ⟨log, (Run.on_bind_ok hnote).trans ?_, hlog⟩
  rw [pure_bind]
  rfl

/-- Calling a function with numbers is evaluating its body with the numbers written into it for the
parameters, in the frame where the function was made and as that frame is now: both give the same
number, the same function or the same error, and print the same. The parameters must be different,
and the body must not call them. -/
theorem call_substitutes (h : s.Reachable saved) {c : ClosureId} {closure : Closure}
    (hc : s.closures[c]? = some closure) (hparams : closure.params.Nodup) {xs : List Float}
    (hxs : xs.length = closure.params.length)
    (hcallees : ∀ p ∈ closure.params, p ∉ closure.body.callees) (traced : Bool) (limit : Nat)
    (name : Option String) :
    let call := (callClosure traced (limit + 1) c (xs.map .number) name).start s
    let body := closure.body.subst (.ofParams closure.params xs)
    let run := (body.eval (callClosure traced limit) traced closure.frame).start s
    run.result = call.result ∧ printedTexts run.log = printedTexts call.log := by
  intro call body run
  have hs := h.callable
  obtain rfl : s.closure c = closure := closure_eq hc
  have hframe := hs.frame_exists c
  have harity : (xs.map Value.number).length = (s.closure c).arity := by
    rw [List.length_map, hxs, Closure.arity]
  obtain ⟨log, hcall, hlog⟩ := on_callClosure harity traced limit name
  let σ := Numbers.ofParams (s.closure c).params xs
  let inline := inlining s.frames.size (s.closure c).frame σ
  have hlawful : inline.Lawful := inlining_lawful fun n hn =>
    (reservedKind?_eq_none.mp (hs.params_free c n (Numbers.mem_of_ofParams hn))).1
  have hstores := Inlines.of_call hframe hs.frame_exists (Numbers.get?_ofList_zip hparams hxs)
  have hspares : σ.Spares (s.closure c).body := fun n hn =>
    by_contra fun hσ => hcallees n (Numbers.mem_of_ofParams hσ) hn
  have hbody : inline.exprs _ s.frames.size (s.closure c).frame (s.closure c).body body :=
    ⟨hstores.callee_exists, placeInlined_callee.symm, by rw [inherited_callee],
      by rwa [inherited_callee]⟩
  have hevals : Run.Corresponds inline _ inline.Values
      ((s.closure c).body.eval (callClosure traced limit) traced s.frames.size)
      (body.eval (callClosure traced limit) traced (s.closure c).frame) :=
    Expr.eval_corresponds hlawful (callClosure_corresponds hlawful limit) _ hbody
  have hends := hevals ⟨_, log⟩ ⟨s, #[]⟩ ⟨⟨rfl, hstores⟩, hlog.symm⟩
  rw [← hcall] at hends
  exact eq_of_ends_inlining hends

/-- A function that hands one of its arguments on, in a function whose parameter hides the other
one, to a function that is defined behind it. -/
theorem call_substitutes_handed_on :
    let program : Program := ⟨[
      .assign "f" (.lambda ["x", "y"] (.call "g" [.lambda ["x"] (.var "y")])),
      .assign "g" (.lambda ["h"] (.call "h" [.number 7]))]⟩
    let s := initial.perform (.run root ⟨false, false, 8⟩ program)
    let call := (callClosure false 3 0 [.number 2, .number 3] none).start s
    let body : Expr := .call "g" [.lambda ["x"] (.number 3)]
    s.Reachable [] ∧ call.result = .ok (.number 3) ∧
      ((body.eval (callClosure false 2) false root).start s).result = call.result := by
  intro program s call body
  have hs : s.Reachable [] :=
    .step .initial ⟨.run root _ program, ⟨by decide, fun v hv => by cases hv⟩, rfl⟩
  have hclosure : s.closures[0]? =
      some ⟨["x", "y"], .call "g" [.lambda ["x"] (.var "y")], root, some "f"⟩ := by rfl
  have harity : ([2, 3] : List Float).length = 2 := rfl
  have hsame := call_substitutes hs hclosure (by decide) harity (by decide) false 2 none
  exact ⟨hs, by decide +kernel, hsame.1⟩

end Store

end Abacus
