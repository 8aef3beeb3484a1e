import Abacus.Proofs.Eval.Reordering
import Abacus.Proofs.Session.Names

/-!
# The order of definitions

Two definitions of functions that follow each other may change places: nothing that comes behind
them can tell (`Session.definitions_commute`). The functions refer to each other by names that are
looked up when they are called, and making a function does nothing that could fail or be seen, so
that only the places of the two closures and the order of new names depend on which one is first.

* `Definition.on_evalStmts`: a definition always succeeds, and leaves `Store.define`.
* `Store.Sound.reordered_define`: the stores behind both orders.
* `Definition.ends_commute`: what the two programs come to.
-/

namespace Abacus

/-! ## Definitions -/

/-- The definition of a function, with names that are not reserved. -/
structure Definition where
  name : String
  params : List String
  body : Expr
  name_free : reservedKind? name = none
  params_free : ∀ p ∈ params, reservedKind? p = none

namespace Definition

/-- The statement that is the definition. -/
def stmt (d : Definition) : Stmt := .assign d.name (.lambda d.params d.body)

/-- The function that the statement makes and names. -/
def closure (d : Definition) : Closure := ⟨d.params, d.body, Store.root, some d.name⟩

end Definition

/-- The store behind a definition. -/
def Store.define (s : Store) (d : Definition) : Store :=
  (s.addClosure d.closure).2.bind root d.name (.closure s.closures.size)

/-- Naming a function that was just made is making it with the name. -/
theorem Store.nameClosure_addClosure (s : Store) {c : Closure} (hc : c.name = none)
    (name : String) : (s.addClosure c).2.nameClosure s.closures.size name =
      (s.addClosure { c with name := some name }).2 := by
  unfold Store.nameClosure Store.addClosure
  congr 1
  refine Array.ext_getElem? fun i => ?_
  rw [Array.getElem?_modify, Array.getElem?_push, Array.getElem?_push]
  by_cases hi : i = s.closures.size
  · rw [if_pos hi.symm, if_pos hi, if_pos hi, Option.map_some, hc, Option.none_or]
  · rw [if_neg (Ne.symm hi), if_neg hi, if_neg hi]

theorem Run.on_ensureFree {name : String} (h : reservedKind? name = none) (s : State) :
    (ensureFree name).on s = (.ok (), s) := by
  unfold ensureFree
  rw [h]
  rfl

theorem Run.on_ensureFree_all {params : List String} (h : ∀ p ∈ params, reservedKind? p = none)
    (s : State) : (params.forM ensureFree).on s = (.ok (), s) := by
  induction params with
  | nil => rfl
  | cons p params ih =>
    obtain ⟨hp, hparams⟩ := List.forall_mem_cons.mp h
    exact (on_bind_ok (on_ensureFree hp s)).trans (ih hparams)

namespace Definition

variable (d : Definition) (set : Settings) (s : State)

/-- A definition makes a function and binds it, and prints nothing. -/
theorem on_evalStmt : ∃ log, (set.evalStmt Store.root d.stmt).on s =
    (.ok (.closure s.store.closures.size), ⟨s.store.define d, log⟩) ∧
      printedTexts log.toList = printedTexts s.log.toList := by
  let made : State := ⟨(s.store.addClosure ⟨d.params, d.body, Store.root, none⟩).2, s.log⟩
  let named : State := ⟨(s.store.addClosure d.closure).2, s.log⟩
  have hmade : (set.eval Store.root (.lambda d.params d.body)).on s =
      (.ok (.closure s.store.closures.size), made) := by
    unfold Settings.eval Expr.eval evalLambda
    rw [Run.on_bind_ok (Run.on_ensureFree_all d.params_free s)]
    rfl
  have hnamed : (nameValue d.name (.closure s.store.closures.size)).on made = (.ok (), named) := by
    unfold nameValue
    rw [Run.on_update, Store.nameClosure_addClosure s.store rfl]
    rfl
  obtain ⟨log, hnote, hlog⟩ := Run.Corresponds.on_note_printed set.traceRun (fun t =>
    "  bind " ++ d.name ++ " = " ++ t.shown (.closure s.store.closures.size) ++ " (depth " ++
      toString (t.depth Store.root) ++ ")") named
  refine ⟨log, ?_, hlog⟩
  unfold stmt Settings.evalStmt
  rw [Run.on_bind_ok hmade, Run.on_bind_ok (Run.on_ensureFree d.name_free made),
    Run.on_bind_ok hnamed, Run.on_bind_ok hnote]
  rfl

/-- A definition goes on to the next statement, with the result that there was before. -/
theorem on_evalStmts (index : Nat) (result : Value) (ss : List Stmt) : ∃ log,
    (set.evalStmts Store.root index result (d.stmt :: ss)).on s =
      (set.evalStmts Store.root (index + 1) result ss).on ⟨s.store.define d, log⟩ ∧
      printedTexts log.toList = printedTexts s.log.toList := by
  obtain ⟨log₁, hnote, hlog₁⟩ := Run.Corresponds.on_note_printed set.traceRun (fun _ =>
    "Evaluating stmt " ++ toString index ++ ": " ++ d.stmt.outline) s
  obtain ⟨log₂, hstmt, hlog₂⟩ := d.on_evalStmt set ⟨s.store, log₁⟩
  refine ⟨log₂, ?_, hlog₂.trans hlog₁⟩
  rw [Settings.evalStmts, Run.on_bind_ok hnote, Run.on_bind_ok hstmt]
  rfl

end Definition

/-! ## Both orders -/

/-- Only the order of new names depends on which of two names is set first. -/
theorem Bindings.names_set_comm {α : Type} (b : Bindings α) {m n : String} (hne : m ≠ n)
    (v w v' w' : α) : ((b.set n v).set m w).names.Perm ((b.set m v').set n w').names := by
  simp only [Bindings.names_set]
  by_cases hm : m ∈ b.names
  · by_cases hn : n ∈ b.names
    · simp only [hm, hn, if_true]
      exact .refl _
    · simp only [hm, hn, if_true, if_false, List.mem_append, true_or]
      exact .refl _
  · by_cases hn : n ∈ b.names
    · simp only [hm, hn, if_true, if_false, List.mem_append, true_or]
      exact .refl _
    · simp only [hm, hn, hne, hne.symm, if_false, List.mem_append, List.mem_singleton, or_false,
        List.append_assoc]
      exact (List.Perm.swap m n []).append_left b.names

namespace Store

variable {s : Store} {d e : Definition}

theorem closure_define (s : Store) (d : Definition) (c : ClosureId) :
    (s.define d).closure c = if c = s.closures.size then d.closure else s.closure c :=
  closure_addClosure s d.closure c

theorem closures_size_define (s : Store) (d : Definition) :
    (s.define d).closures.size = s.closures.size + 1 := by
  unfold Store.define Store.bind Store.addClosure
  rw [Array.size_push]

theorem frames_size_define (s : Store) (d : Definition) :
    (s.define d).frames.size = s.frames.size := by
  unfold Store.define Store.bind Store.addClosure
  rw [Array.size_modify]

theorem frame_define (hroot : root < s.frames.size) (d : Definition) (f : FrameId) :
    (s.define d).frame f = if root = f then { s.frame f with
      bindings := (s.bindings f).set d.name (.closure s.closures.size) } else s.frame f := by
  have hframe := frame_modify (s.addClosure d.closure).2 root (fun frame =>
    { frame with bindings := frame.bindings.set d.name (.closure s.closures.size) }) f
  refine hframe.trans ?_
  by_cases hf : root = f
  · rw [if_pos hf, if_pos ⟨hf, hroot⟩]
    rfl
  · rw [if_neg hf, if_neg fun h => hf h.1]
    rfl

theorem parent_define (hroot : root < s.frames.size) (d : Definition) (f : FrameId) :
    ((s.define d).frame f).parent = (s.frame f).parent := by
  rw [frame_define hroot]
  split <;> rfl

/-- A definition binds its name in the root frame only. -/
theorem bindings_define (hroot : root < s.frames.size) (d : Definition) (f : FrameId) :
    (s.define d).bindings f = if root = f then
      (s.bindings f).set d.name (.closure s.closures.size) else s.bindings f := by
  unfold Store.bindings
  rw [frame_define hroot]
  split <;> rfl

theorem Sound.root_lt_size (hs : s.Sound) : root < s.frames.size := by
  obtain ⟨frame, hroot⟩ := hs.root_exists
  exact (Array.getElem?_eq_some_iff.mp hroot).1

/-- What exists stays where it is, if only later places are moved. -/
theorem move_eq_of_exists {π : Equiv.Perm ClosureId}
    (hπ : ∀ c : Nat, c < s.closures.size → π c = c) {v : Value} (hv : v.Exists s) :
    v.move π = v := by
  cases v with
  | number x => rfl
  | closure c =>
    obtain ⟨closure, hc⟩ := hv
    exact congrArg Value.closure (hπ c (Array.getElem?_eq_some_iff.mp hc).1)

/-- What is bound is not moved by an exchange of places that were not given out. -/
theorem Sound.map_move_get? (hs : s.Sound) {π : Equiv.Perm ClosureId}
    (hπ : ∀ c : Nat, c < s.closures.size → π c = c) (f : FrameId) (n : String) :
    ((s.bindings f).get? n).map (Value.move π) = (s.bindings f).get? n := by
  cases hv : (s.bindings f).get? n with
  | none => rfl
  | some v => exact congrArg some (move_eq_of_exists hπ ((hs.bindings_exist f).get? hv))

/-- Exchanges the next two places. -/
def exchange (s : Store) : Equiv.Perm ClosureId := Equiv.swap s.closures.size (s.closures.size + 1)

theorem exchange_of_lt {c : Nat} (h : c < s.closures.size) : s.exchange c = c :=
  Equiv.swap_apply_of_ne_of_ne (Nat.ne_of_lt h) (Nat.ne_of_lt (Nat.lt_succ_of_lt h))

/-- The two closures change their places, and nothing else does. -/
theorem Sound.reordered_define (hs : s.Sound) (hne : d.name ≠ e.name) :
    ((s.define d).define e).Reordered s.exchange ((s.define e).define d) := by
  have hroot := hs.root_lt_size
  have hroot' (d : Definition) : root < (s.define d).frames.size := by rwa [frames_size_define]
  -- Both stores hold the same two functions, at exchanged places. Names are looked up to the same
  -- functions, and only the root frame was touched.
  exact {
    frames_size := by simp only [frames_size_define]
    parent f := by
      rw [parent_define (hroot' e), parent_define hroot, parent_define (hroot' d),
        parent_define hroot]
    get? f n := by
      rw [bindings_define (hroot' e), bindings_define hroot, bindings_define (hroot' d),
        bindings_define hroot]
      by_cases hf : root = f
      · simp only [if_pos hf, Bindings.get?_set, closures_size_define]
        by_cases hd : n = d.name
        · have he : n ≠ e.name := fun he => hne (hd.symm.trans he)
          rw [if_pos hd, if_neg he, if_pos hd]
          exact congrArg (some ∘ Value.closure) (Equiv.swap_apply_left _ _).symm
        · by_cases he : n = e.name
          · rw [if_neg hd, if_pos he, if_pos he]
            exact congrArg (some ∘ Value.closure) (Equiv.swap_apply_right _ _).symm
          · rw [if_neg hd, if_neg he, if_neg he, if_neg hd]
            exact (hs.map_move_get? (fun _ => exchange_of_lt) f n).symm
      · simp only [if_neg hf]
        exact (hs.map_move_get? (fun _ => exchange_of_lt) f n).symm
    names f := by
      rw [bindings_define (hroot' e), bindings_define hroot, bindings_define (hroot' d),
        bindings_define hroot]
      by_cases hf : root = f
      · simp only [if_pos hf]
        exact Bindings.names_set_comm _ hne _ _ _ _
      · simp only [if_neg hf]
        exact .refl _
    closures_size := by simp only [closures_size_define]
    closure c := by
      simp only [closure_define, closures_size_define]
      by_cases hd : c = s.closures.size
      · have hmoved : s.exchange c = s.closures.size + 1 := by
          rw [hd]
          exact Equiv.swap_apply_left _ _
        -- The first function of one order is the second one of the other.
        have hlater : c ≠ s.closures.size + 1 := fun he => Nat.succ_ne_self _ (he.symm.trans hd)
        rw [hmoved, if_pos rfl, if_neg hlater, if_pos hd]
      · by_cases he : c = s.closures.size + 1
        · have hmoved : s.exchange c = s.closures.size := by
            rw [he]
            exact Equiv.swap_apply_right _ _
          rw [hmoved, if_neg (Nat.succ_ne_self _).symm, if_pos rfl, if_pos he]
        · have hmoved : s.exchange c = c := Equiv.swap_apply_of_ne_of_ne hd he
          rw [hmoved, if_neg he, if_neg hd, if_neg he, if_neg hd]
    unmoved {c} hc := by
      simp only [closures_size_define] at hc
      exact Equiv.swap_apply_of_ne_of_ne (Nat.ne_of_gt (Nat.lt_of_succ_lt hc)) (Nat.ne_of_gt hc) }

end Store

/-! ## Programs -/

theorem Run.start_of_on {α : Type} {run : Run α} {s : Store} {r : Except Fault α} {t : State}
    (h : run.on ⟨s, #[]⟩ = (r, t)) : run.start s = ⟨r, t.store, t.log.toList⟩ := by
  unfold Run.on at h
  unfold Run.start
  rw [h]

theorem Run.on_bind_of_on {α β : Type} {x y : Run α} {k : α → Run β} {s t : State}
    (h : x.on s = y.on t) : (x >>= k).on s = (y >>= k).on t := by
  rw [on_bind, on_bind, h]

namespace Definition

variable {s : State} {d e : Definition}

/-- Two definitions in a row make two functions and print nothing; what follows runs behind them. -/
theorem on_evalStmts_pair (d e : Definition) (set : Settings) (s : State) (index : Nat)
    (result : Value) (ss : List Stmt) : ∃ log,
    (set.evalStmts Store.root index result (d.stmt :: e.stmt :: ss)).on s =
      (set.evalStmts Store.root (index + 2) result ss).on ⟨(s.store.define d).define e, log⟩ ∧
      printedTexts log.toList = printedTexts s.log.toList := by
  obtain ⟨log₁, hd, hlog₁⟩ := d.on_evalStmts set s index result (e.stmt :: ss)
  obtain ⟨log₂, he, hlog₂⟩ := e.on_evalStmts set ⟨s.store.define d, log₁⟩ (index + 1) result ss
  exact ⟨log₂, hd.trans he, hlog₂.trans hlog₁⟩

/-- Programs that differ in the order of two definitions end alike, with later closures at other
places. -/
theorem ends_commute (hs : s.store.Sound) (hne : d.name ≠ e.name) (set : Settings)
    (before after : List Stmt) : ∃ π : Equiv.Perm ClosureId,
    (∀ c : Nat, c < s.store.closures.size → π c = c) ∧
    (reordering π).Ends () (fun _ x y => x = y)
      ((set.evalProgram Store.root ⟨before ++ d.stmt :: e.stmt :: after⟩).on s)
      ((set.evalProgram Store.root ⟨before ++ e.stmt :: d.stmt :: after⟩).on s) := by
  have hbefore : (set.evalStmts Store.root 0 (.number 0) before).Obeys
      (Store.soundness (targets before)) (fun s v => v.Exists s.store) s :=
    Settings.evalStmts_guided (Store.evaluates_soundness _).guides (Store.assigns_soundness _) set
      before 0 (fun _ h => h) hs (fun _ _ => trivial) trivial
  simp only [Settings.evalProgram_eq, Settings.evalStmts_append, bind_assoc]
  cases hrun : (set.evalStmts Store.root 0 (.number 0) before).on s with | mk r u =>
  cases r with
  -- A fault in front of the definitions is the same in both orders, and nothing is exchanged.
  | error fault =>
    have hsame : (reordering (Equiv.refl ClosureId)).States () u u := ⟨.refl u.store, rfl⟩
    rw [Run.on_bind_error hrun, Run.on_bind_error hrun]
    exact ⟨Equiv.refl ClosureId, fun _ _ => rfl, .error rfl trivial hsame⟩
  | ok result =>
    obtain ⟨hu, hsu, hresult⟩ := hbefore.on hrun
    have hlater : ∀ c : Nat, c < s.store.closures.size → c < u.store.closures.size := by
      intro c hc
      have hexists : (Value.closure c).Exists s.store := ⟨_, Array.getElem?_eq_getElem hc⟩
      obtain ⟨closure, hc'⟩ := hexists.of_preserved hsu
      exact (Array.getElem?_eq_some_iff.mp hc').1
    -- The two functions are made at exchanged places, behind all that was there.
    let π := u.store.exchange
    have hmoved : (reordering π).Values () result result := values_reordering.mpr
      (Store.move_eq_of_exists (fun _ => Store.exchange_of_lt) (hresult result rfl)).symm
    obtain ⟨log, hon, hlog⟩ := on_evalStmts_pair d e set u (0 + before.length) result after
    obtain ⟨log', hon', hlog'⟩ := on_evalStmts_pair e d set u (0 + before.length) result after
    have hstates : (reordering π).States () ⟨(u.store.define d).define e, log⟩
        ⟨(u.store.define e).define d, log'⟩ :=
      ⟨hu.reordered_define hne, hlog'.trans hlog.symm⟩
    -- What follows runs in stores that are the same up to the exchange.
    have hafter := (Settings.evalStmts_corresponds (reordering_lawful π) (reordering_assigns π) set
      (stmts_reordering after) hmoved (0 + before.length + 2)).bind (reordering_lawful π)
        (fun _ _ _ _ hv => corresponds_ofResult (reordering_lawful π) (reordering_assigns π) hv) _ _
        hstates
    refine ⟨π, fun c hc => Store.exchange_of_lt (hlater c hc), ?_⟩
    rw [Run.on_bind_ok hrun, Run.on_bind_ok hrun, Run.on_bind_of_on hon, Run.on_bind_of_on hon']
    exact hafter

end Definition

/-! ## Sessions -/

open Relation (ReflTransGen)

/-- The names of a frame stay where they are. -/
theorem State.names_prefix_of_changes {f : FrameId} {names : List String} {s t : State}
    (h : ReflTransGen (Change f names) s t) {frame : Frame}
    (hf : s.store.frames[f]? = some frame) : (∃ frame', t.store.frames[f]? = some frame') ∧
      (s.store.bindings f).names <+: (t.store.bindings f).names := by
  induction h with
  | refl => exact ⟨⟨frame, hf⟩, List.prefix_rfl⟩
  | @tail u t _ hstep ih =>
    obtain ⟨⟨frame', hu⟩, hprefix⟩ := ih
    cases hstep with
    | grows h =>
      have ht := h.extends.frame hu
      rw [Store.bindings_of_getElem? hu] at hprefix
      rw [Store.bindings_of_getElem? ht]
      exact ⟨⟨frame', ht⟩, hprefix⟩
    | nameClosure => exact ⟨⟨frame', hu⟩, hprefix⟩
    | @bind name v hname =>
      have hset := Store.bindings_bind hu name v
      refine ⟨⟨{ frame' with bindings := frame'.bindings.set name v }, ?_⟩, ?_⟩
      · unfold State.bind Store.bind
        rw [Array.getElem?_modify, if_pos rfl, hu]
        rfl
      · unfold State.bind
        rw [hset, Bindings.names_set_eq]
        exact hprefix.trans (List.prefix_append _ _)

/-- What can be seen of a value does not show its place. -/
theorem Store.Reordered.view_eq {π : Equiv.Perm ClosureId} {s t : Store} (h : s.Reordered π t)
    (v : Value) : t.view (v.move π) = s.view v := by
  cases v with
  | number x => rfl
  | closure c =>
    unfold Value.move Store.view
    simp only [h.closure c, h.depth_eq]

namespace Session

variable {s t : Session} {saved : List (Bindings Value)} {π : Equiv.Perm ClosureId}

/-- What can be seen of the value of a name. -/
def viewOf? (s : Session) (name : String) : Option Value.View :=
  (s.bindings.get? name).map s.store.view

/-- The sessions bind the same names, to the same numbers and to functions with the same names,
parameters and bodies. The names `old` come first in both, and only the others may be in another
order. -/
structure BoundAlike (old : List String) (s t : Session) : Prop where
  viewOf?_eq : ∀ name, t.viewOf? name = s.viewOf? name
  names : ∃ new new', s.names = old ++ new ∧ t.names = old ++ new' ∧ new'.Perm new

/-- Sessions with reordered stores bind alike. -/
theorem boundAlike_of_reordered (h : s.store.Reordered π t.store) {old : List String}
    (hs : old <+: s.names) (ht : old <+: t.names) : BoundAlike old s t where
  viewOf?_eq name := by
    have hget := h.get? Store.root name
    unfold viewOf? bindings
    rw [hget, Option.map_map]
    congr 1
    funext v
    exact h.view_eq v
  names := by
    obtain ⟨new, hnew⟩ := hs
    obtain ⟨new', hnew'⟩ := ht
    have hperm : t.names.Perm s.names := h.names Store.root
    rw [← hnew, ← hnew', List.perm_append_left_iff] at hperm
    exact ⟨new, new', hnew.symm, hnew'.symm, hperm⟩

/-- A run keeps the names of the session in front. -/
theorem names_prefix_of_run (hs : s.store.Sound) {set : Settings} {p : Program}
    {r : Except Fault Float} {u : State}
    (h : (set.evalProgram Store.root p).on s.start = (r, u)) :
    s.names <+: (Session.mk u.store).names := by
  obtain ⟨frame, hroot⟩ := hs.root_exists
  have hchanges := State.changes_of_evalProgram set Store.root p s.start
  rw [Run.after, h] at hchanges
  exact (State.names_prefix_of_changes hchanges hroot).2

theorem names_prefix_of_restored (hs : s.store.Sound) {set : Settings} {p : Program}
    {r : Except Fault Float} {u : State}
    (h : (set.evalProgram Store.root p).on s.start = (r, u)) :
    s.names <+: ((Session.mk u.store).restore s.bindings).names := by
  have hsound := (Store.sound_of_evalProgram set p (s := s.start) hs).1
  rw [Run.after, h] at hsound
  have hback := bindings_restore (s := ⟨u.store⟩) hsound s.bindings
  refine ⟨[], ?_⟩
  rw [List.append_nil]
  exact congrArg Bindings.names hback.symm

/-- Setting back both sessions makes them alike again, since what was bound before is not moved. -/
theorem boundAlike_of_restored (hs : s.store.Sound)
    (hπ : ∀ c : Nat, c < s.store.closures.size → π c = c) {set : Settings} {p p' : Program}
    {r r' : Except Fault Float} {u u' : State}
    (h : (set.evalProgram Store.root p).on s.start = (r, u))
    (h' : (set.evalProgram Store.root p').on s.start = (r', u'))
    (hreordered : u.store.Reordered π u'.store) :
    BoundAlike s.names ((Session.mk u.store).restore s.bindings)
      ((Session.mk u'.store).restore s.bindings) := by
  have hbindings : s.bindings.map (Value.move π) = s.bindings := Bindings.map_id_of_all
    ((hs.bindings_exist Store.root).imp fun _ => Store.move_eq_of_exists hπ)
  have hrestored := hreordered.setBindings Store.root s.bindings
  rw [hbindings] at hrestored
  exact boundAlike_of_reordered hrestored (names_prefix_of_restored hs h)
    (names_prefix_of_restored hs h')

/-- In a session that can come up, two programs that differ in the order of two definitions of
different functions, which follow each other, give the same: the same value or the same error, the
same printed texts, and the same bindings, except that new names may come in another order. So do
two sources with these programs. -/
theorem definitions_commute (h : Reachable s saved) {d e : Definition} (hne : d.name ≠ e.name)
    (set : Settings) (before after : List Stmt) :
    let p : Program := ⟨before ++ d.stmt :: e.stmt :: after⟩
    let p' : Program := ⟨before ++ e.stmt :: d.stmt :: after⟩
    let run := (set.evalProgram Store.root p).start s.store
    let run' := (set.evalProgram Store.root p').start s.store
    (run'.result = run.result ∧ printedTexts run'.log = printedTexts run.log ∧
      BoundAlike s.names ⟨run.store⟩ ⟨run'.store⟩) ∧
    ∀ source source', Program.ofSource source = .ok p → Program.ofSource source' = .ok p' →
      let answer := s.eval set source
      let answer' := s.eval set source'
      answer'.1.result = answer.1.result ∧ printedTexts answer'.1.log = printedTexts answer.1.log ∧
        BoundAlike s.names answer.2 answer'.2 := by
  intro p p' run run'
  have hs := h.sound.store
  obtain ⟨π, hπ, hends⟩ := Definition.ends_commute (s := s.start) hs hne set before after
  cases hrun : (set.evalProgram Store.root p).on s.start with | mk r u =>
  cases hrun' : (set.evalProgram Store.root p').on s.start with | mk r' u' =>
  have hstart : run = ⟨r, u.store, u.log.toList⟩ := Run.start_of_on hrun
  have hstart' : run' = ⟨r', u'.store, u'.log.toList⟩ := Run.start_of_on hrun'
  have hprefix := names_prefix_of_run hs hrun
  have hprefix' := names_prefix_of_run hs hrun'
  rw [hstart, hstart']
  rw [hrun, hrun'] at hends
  obtain ⟨_, hstores, hprinted⟩ := hends.states
  have hreordered : u.store.Reordered π u'.store := hstores
  have halike : BoundAlike s.names ⟨u.store⟩ ⟨u'.store⟩ :=
    boundAlike_of_reordered (s := ⟨u.store⟩) (t := ⟨u'.store⟩) hreordered hprefix hprefix'
  cases hends with
  -- Where both runs succeed, the session goes on from their stores.
  | ok _ _ hx =>
    cases hx
    refine ⟨⟨rfl, hprinted, halike⟩, fun source source' hp hp' => ?_⟩
    obtain ⟨hresult, hlog, hafter⟩ := eval_of_run hp hrun
    obtain ⟨hresult', hlog', hafter'⟩ := eval_of_run hp' hrun'
    dsimp only
    rw [hresult, hresult', hlog, hlog', hafter, hafter']
    exact ⟨rfl, hprinted, halike⟩
  -- Where they fail, the bindings of the session are restored, and what was bound is not moved.
  | error he _ _ =>
    cases he
    refine ⟨⟨rfl, hprinted, halike⟩, fun source source' hp hp' => ?_⟩
    obtain ⟨hresult, hlog, hafter⟩ := eval_of_fault hp hrun
    obtain ⟨hresult', hlog', hafter'⟩ := eval_of_fault hp' hrun'
    dsimp only
    rw [hresult, hresult', hlog, hlog', hafter, hafter']
    exact ⟨rfl, hprinted, boundAlike_of_restored hs hπ hrun hrun' hreordered⟩

/-- Two functions that call each other, and a name that was bound before. -/
theorem definitions_commute_mutual :
    let set : Settings := ⟨false, false, 8⟩
    let s := (Session.empty.eval set "k = 1").2
    let source := "def f(x) = g(k); def g(x) = if x then x else f(x); f(3)"
    let source' := "def g(x) = if x then x else f(x); def f(x) = g(k); f(3)"
    (s.eval set source).1.result = .ok 1 ∧
      (s.eval set source').1.result = (s.eval set source).1.result ∧
      printedTexts (s.eval set source').1.log = printedTexts (s.eval set source).1.log ∧
      BoundAlike ["k"] (s.eval set source).2 (s.eval set source').2 := by
  intro set s source source'
  let d : Definition := ⟨"f", ["x"], .call "g" [.var "k"], by decide,
    List.forall_mem_singleton.mpr (by decide)⟩
  let e : Definition := ⟨"g", ["x"], .conditional (.var "x") (.var "x") (.call "f" [.var "x"]),
    by decide, List.forall_mem_singleton.mpr (by decide)⟩
  have hne : d.name ≠ e.name := by decide
  have hreachable : Reachable s [] := .eval set _ .empty
  have hnames : s.names = ["k"] := by decide +kernel
  obtain ⟨-, hsources⟩ := definitions_commute hreachable hne set [] [.expr (.call "f" [.number 3])]
  obtain ⟨hresult, hprinted, halike⟩ :=
    hsources source source' (by decide +kernel) (by decide +kernel)
  rw [hnames] at halike
  exact ⟨by decide +kernel, hresult, hprinted, halike⟩

end Session

end Abacus
