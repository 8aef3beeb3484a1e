import Abacus.Proofs.Eval.Scope
import Abacus.Proofs.Session.Joined

/-!
# The names of a session

Which names a session binds can be read off the texts of its sources: a source that succeeds adds
the targets of its assignments that are new, each once and in the order of their first assignment,
and everything else leaves the names as they are (`Session.names_determined`).

* `append_newNames_cons`: adding names one by one.
* `Settings.bindings_of_eval`: no expression binds a name in a frame that is there before it.
* `Settings.names_of_evalStmts`: in whatever frame statements run.
-/

namespace Abacus

/-! ## New names -/

/-- Those of the added names that are new, each once, in the order in which they first come up. -/
def newNames (names added : List String) : List String := (added.filter (· ∉ names)).eraseDups

@[simp] theorem newNames_nil (names : List String) : newNames names [] = [] := rfl

variable {names : List String} {name : String}

/-- Names that are added one after the other. -/
theorem append_newNames_cons (names : List String) (name : String) (added : List String) :
    names ++ newNames names (name :: added) =
      names ++ newNames names [name] ++ newNames (names ++ newNames names [name]) added := by
  by_cases h : name ∈ names
  · simp [newNames, h]
  · have hrest : (added.filter fun n => decide (n ∉ names)).filter (fun n => !n == name) =
        added.filter fun n => decide (n ∉ names ++ [name]) := by
      rw [List.filter_filter]
      congr 1
      funext n
      by_cases hn : n = name <;> simp [hn]
    have hnew : newNames names [name] = [name] := by simp [newNames, h, List.eraseDups_cons]
    rw [hnew, newNames, newNames, List.filter_cons_of_pos (by simpa using h), List.eraseDups_cons,
      hrest, List.append_assoc, List.singleton_append]

theorem append_newNames_append (names added added' : List String) :
    names ++ newNames names (added ++ added') =
      names ++ newNames names added ++ newNames (names ++ newNames names added) added' := by
  induction added generalizing names with
  | nil => simp
  | cons name added ih =>
    rw [List.cons_append, append_newNames_cons, ih, ← append_newNames_cons]

/-- New names come behind the others without repetition. -/
theorem nodup_append_newNames (h : names.Nodup) (added : List String) :
    (names ++ newNames names added).Nodup := by
  induction added generalizing names with
  | nil => simpa using h
  | cons name added ih =>
    rw [append_newNames_cons]
    refine ih ?_
    by_cases hname : name ∈ names
    · simpa [newNames, hname] using h
    · rw [newNames, List.filter_cons_of_pos (by simpa using hname), List.filter_nil,
        List.eraseDups_cons, List.filter_nil, List.eraseDups_nil]
      exact List.nodup_append.mpr ⟨h, by simp, fun a ha b hb hab =>
        hname (List.mem_singleton.mp hb ▸ hab ▸ ha)⟩

theorem Bindings.names_set_eq {α : Type} (b : Bindings α) (name : String) (v : α) :
    (b.set name v).names = b.names ++ newNames b.names [name] := by
  rw [names_set]
  split
  · rename_i h
    simp [newNames, h]
  · rename_i h
    simp [newNames, h, List.eraseDups_cons]

/-! ## Runs -/

section Runs

variable {set : Settings} {f : FrameId} {s t : State}

theorem Store.bindings_bind {s : Store} {frame : Frame} (h : s.frames[f]? = some frame)
    (name : String) (v : Value) : (s.bind f name v).bindings f = (s.bindings f).set name v := by
  have hbound : (s.bind f name v).frames[f]? =
      some { frame with bindings := frame.bindings.set name v } := by
    unfold Store.bind
    rw [Array.getElem?_modify, if_pos rfl, h]
    rfl
  rw [Store.bindings_of_getElem? hbound, Store.bindings_of_getElem? h]

/-- What a run only adds to keeps its frames. -/
theorem State.Extends.frame {frame : Frame} (h : s.Extends t)
    (hf : s.store.frames[f]? = some frame) : t.store.frames[f]? = some frame :=
  State.getElem?_mono h.frames hf

/-- An expression binds no name in a frame that is there before it. -/
theorem Settings.bindings_of_eval {frame : Frame} (hf : s.store.frames[f]? = some frame)
    (set : Settings) (g : FrameId) (x : Expr) :
    ((set.eval g x).after s).store.bindings f = s.store.bindings f := by
  rw [Store.bindings_of_getElem? ((State.extends_of_eval set g x s).frame hf),
    Store.bindings_of_getElem? hf]

theorem frames_nameValue (name : String) (v : Value) (s : State) :
    ((nameValue name v).after s).store.frames = s.store.frames := by
  cases v <;> rfl

/-- A statement adds its target. -/
theorem Settings.names_of_evalStmt {stmt : Stmt} {v : Value} {frame : Frame}
    (hf : s.store.frames[f]? = some frame) (h : (set.evalStmt f stmt).on s = (.ok v, t)) :
    (∃ frame', t.store.frames[f]? = some frame') ∧
      (t.store.bindings f).names = (s.store.bindings f).names ++
        newNames (s.store.bindings f).names (targets [stmt]) := by
  have hkept {x : Expr} {u : State} (hx : (set.eval f x).on s = (.ok v, u)) :
      u.store.frames[f]? = some frame := by
    have hafter := (State.extends_of_eval set f x s).frame hf
    rwa [Run.after, hx] at hafter
  cases stmt with
  | expr x =>
    have ht := hkept h
    rw [Store.bindings_of_getElem? ht, Store.bindings_of_getElem? hf, targets, targets,
      newNames_nil, List.append_nil]
    exact ⟨⟨_, ht⟩, rfl⟩
  | assign name x =>
    obtain ⟨u, hx, ht⟩ := ok_of_evalStmt_assign h
    have hnamed : ((nameValue name v).after u).store.frames[f]? = some frame := by
      rw [frames_nameValue, hkept hx]
    rw [ht, Store.bindings_bind hnamed, Bindings.names_set_eq, Store.bindings_of_getElem? hnamed,
      Store.bindings_of_getElem? hf]
    refine ⟨⟨{ frame with bindings := frame.bindings.set name v }, ?_⟩, rfl⟩
    unfold Store.bind
    rw [Array.getElem?_modify, if_pos rfl, hnamed]
    rfl

/-- Statements add their targets, in whatever frame they run. -/
theorem Settings.names_of_evalStmts {ss : List Stmt} {index : Nat} {result v : Value}
    {frame : Frame} (hf : s.store.frames[f]? = some frame)
    (h : (set.evalStmts f index result ss).on s = (.ok v, t)) :
    (t.store.bindings f).names = (s.store.bindings f).names ++
      newNames (s.store.bindings f).names (targets ss) := by
  induction ss generalizing s index result frame with
  | nil =>
    cases h
    rw [targets, newNames_nil, List.append_nil]
  | cons stmt ss ih =>
    rw [Settings.evalStmts] at h
    obtain ⟨log, hlog⟩ := Run.on_note set.traceRun (fun _ =>
      "Evaluating stmt " ++ toString index ++ ": " ++ stmt.outline) s
    rw [Run.on_bind_ok hlog] at h
    obtain ⟨w, u, hstmt, h⟩ := Run.ok_of_on_bind h
    obtain ⟨⟨frame', hu⟩, hnames⟩ := Settings.names_of_evalStmt (s := ⟨s.store, log⟩) hf hstmt
    rw [ih hu h, hnames, targets_cons stmt ss, append_newNames_append]

end Runs

/-! ## Sessions -/

namespace Session

variable {s s' : Session} {saved : List (Bindings Value)}

theorem names_of_eval (hs : s.store.Sound) {set : Settings} {source : String} {p : Program}
    {x : Float} (hp : Program.ofSource source = .ok p)
    (hx : (s.eval set source).1.result = .ok x) :
    (s.eval set source).2.names = s.names ++ newNames s.names (targets p.statements) := by
  obtain ⟨p', t, hp', hrun⟩ := run_of_eval hx
  cases hp.symm.trans hp'
  obtain ⟨frame, hroot⟩ := hs.root_exists
  rw [(eval_of_run hp hrun).2.2]
  exact Settings.names_of_evalStmts hroot (Settings.evalProgram_ok_iff.mp hrun)

theorem names_of_set (hs : s.store.Sound) {name : String} {value : Document}
    (hset : s.set name value = .ok s') : s'.names = s.names ++ newNames s.names [name] := by
  obtain ⟨-, x, rfl⟩ := bind_of_set hset
  obtain ⟨frame, hroot⟩ := hs.root_exists
  rw [names, bindings, Store.bindings_bind hroot, Bindings.names_set_eq]
  rfl

theorem bindings_restore (hs : s.store.Sound) (b : Bindings Value) :
    (s.restore b).bindings = b := by
  obtain ⟨frame, hroot⟩ := hs.root_exists
  have hset : (s.restore b).store.frames[Store.root]? = some { frame with bindings := b } := by
    unfold Session.restore Store.setBindings
    rw [Array.getElem?_modify, if_pos rfl, hroot]
    rfl
  exact Store.bindings_of_getElem? hset

/-- A call of a function binds no name outside of its own frames. -/
theorem bindings_call (hs : s.store.Sound) (set : Settings) (c : ClosureId) (args : List Value)
    (name : Option String) :
    (Session.mk (s.call set c args name).store).bindings = s.bindings := by
  obtain ⟨frame, hroot⟩ := hs.root_exists
  have hcall : (callClosure set.traceRun set.limit c args name).Obeys (State.steps State.Grows) _
      s.start :=
    callClosure_obeys (State.evaluates_steps id) set.traceRun set.limit trivial trivial
      fun _ _ => trivial
  have hkept := (State.extends_of_grows hcall.allows).frame hroot
  rw [bindings, bindings, Store.bindings_of_getElem? hroot]
  exact Store.bindings_of_getElem? hkept

/-- No name comes up twice, nor does one in bindings that were saved. -/
theorem Reachable.names_nodup (h : Reachable s saved) :
    s.names.Nodup ∧ ∀ b ∈ saved, b.names.Nodup := by
  induction h with
  | empty => exact ⟨List.nodup_nil, fun _ hb => by cases hb⟩
  | set h hset ih =>
    rw [names_of_set h.sound.store hset]
    exact ⟨nodup_append_newNames ih.1 _, ih.2⟩
  | @eval s _ set source h ih =>
    refine ⟨?_, ih.2⟩
    cases hresult : (s.eval set source).1.result with
    | ok x =>
      obtain ⟨p, _, hp, -⟩ := run_of_eval hresult
      rw [names_of_eval h.sound.store hp hresult]
      exact nodup_append_newNames ih.1 _
    | error e =>
      rw [names, (eval_rolls_back h set source hresult).bindings]
      exact ih.1
  | snapshot _ ih => exact ⟨ih.1, List.forall_mem_cons.mpr ih⟩
  | restore h hb ih =>
    rw [names, bindings_restore h.sound.store]
    exact ⟨ih.2 _ hb, ih.2⟩
  | call set name h _ _ ih =>
    rw [names, bindings_call h.sound.store]
    exact ih

/-- The names of a session that can come up are all different, and what becomes of them shows in the
texts of sources. A source that succeeds adds the new targets of its assignments, definitions of
functions among them, in the order in which they come first; so the names that there were keep their
places. Setting a name adds just that one, if it is new. A source that fails adds none, and neither
does the evaluation of any expression in whatever frame, nor a call of a function. -/
theorem names_determined (h : Reachable s saved) :
    s.names.Nodup ∧
    (∀ (set : Settings) (source : String) (p : Program) (x : Float),
      Program.ofSource source = .ok p → (s.eval set source).1.result = .ok x →
      (s.eval set source).2.names = s.names ++ newNames s.names (targets p.statements)) ∧
    (∀ (name : String) (value : Document) (s' : Session), s.set name value = .ok s' →
      s'.names = s.names ++ newNames s.names [name]) ∧
    (∀ (set : Settings) (source : String) (e : Failure),
      (s.eval set source).1.result = .error e → (s.eval set source).2.names = s.names) ∧
    (∀ (set : Settings) (f : FrameId) (x : Expr),
      (Session.mk ((set.eval f x).after s.start).store).names = s.names) ∧
    ∀ (set : Settings) (c : ClosureId) (args : List Value) (name : Option String),
      (Session.mk (s.call set c args name).store).names = s.names := by
  have hs := h.sound.store
  obtain ⟨frame, hroot⟩ := hs.root_exists
  refine ⟨h.names_nodup.1, fun _ _ _ _ hp hx => names_of_eval hs hp hx,
    fun _ _ _ hset => names_of_set hs hset, fun set source _ he => ?_, fun set f x => ?_,
    fun set c args name => ?_⟩
  · rw [names, (eval_rolls_back h set source he).bindings, names]
  · have hbindings := Settings.bindings_of_eval (s := s.start) hroot set f x
    exact congrArg Bindings.names hbindings
  · rw [names, bindings_call hs, names]

/-- A source that overwrites one name, defines a function and assigns to one new name twice. -/
theorem names_determined_definitions :
    let set : Settings := ⟨false, false, 8⟩
    let s := (Session.empty.eval set "b = 1; a = 2").2
    s.names = ["b", "a"] ∧
      (s.eval set "c = a; def f(x) = c; a = f(b); c = a").2.names = ["b", "a", "c", "f"] := by
  intro set s
  have hreachable : Reachable s [] := .eval set _ .empty
  have hnames : s.names = ["b", "a"] := by decide +kernel
  refine ⟨hnames, ?_⟩
  have heval := (names_determined hreachable).2.1 set "c = a; def f(x) = c; a = f(b); c = a"
    ⟨[.assign "c" (.var "a"), .assign "f" (.lambda ["x"] (.var "c")),
      .assign "a" (.call "f" [.var "b"]), .assign "c" (.var "a")]⟩ 2 (by decide +kernel)
    (by decide +kernel)
  rw [heval, hnames]
  decide

end Session

end Abacus
