import Abacus.Proofs.Eval.Correspondence
import Abacus.Proofs.Eval.Heap
import Abacus.Proofs.Session.Reserved

/-!
# Calls as substitution

A function that is called with numbers does what its body does in the frame where the function was
made, once the numbers are written into it for the parameters.

The call opens a frame, which the functions that the body makes carry away; the body with the
numbers in it opens none, and makes functions with other bodies that hang off other frames. Two
things keep both runs together, wherever these functions are called later:

* `Store.inherited`: in every frame it is known which names still stand for the numbers of the call:
  those that reach the frame of the call before a frame that binds them.
* `Inlines`: each function of the second run has the body of the first one, with the numbers that
  its frame inherits, and all frames behind that of the call stand one place earlier.

With them the run without the call corresponds to the one with it (`inlining_lawful`).
-/

namespace Abacus

/-! ## Writing numbers into expressions -/

/-- Numbers for names. -/
abbrev Numbers := String → Option Float

namespace Numbers

/-- No numbers. -/
def none : Numbers := fun _ => .none

/-- The numbers that are left where other values are bound to some names. -/
def without (names : List String) (σ : Numbers) : Numbers :=
  fun n => if n ∈ names then .none else σ n

@[simp] theorem without_none (names : List String) : none.without names = none := by
  funext n
  unfold without
  split <;> rfl

theorem without_congr {names names' : List String} (h : ∀ n, n ∈ names ↔ n ∈ names')
    (σ : Numbers) : σ.without names = σ.without names' := by
  funext n
  simp only [without, h]

end Numbers

mutual

/-- The expression with numbers written into it for its free variables. -/
def Expr.subst (σ : Numbers) : Expr → Expr
  | .number v => .number v
  | .var n =>
    match σ n with
    | some v => .number v
    | none => .var n
  | .unary op x => .unary op (x.subst σ)
  | .binary op x y => .binary op (x.subst σ) (y.subst σ)
  | .conditional c t e => .conditional (c.subst σ) (t.subst σ) (e.subst σ)
  | .call n args => .call n (Expr.substList σ args)
  | .lambda params body => .lambda params (body.subst (σ.without params))

def Expr.substList (σ : Numbers) : List Expr → List Expr
  | [] => []
  | x :: xs => x.subst σ :: Expr.substList σ xs

end

mutual

/-- The names that occur free in the expression as names of called functions. -/
def Expr.callees : Expr → List String
  | .number _ | .var _ => []
  | .unary _ x => x.callees
  | .binary _ x y => x.callees ++ y.callees
  | .conditional c t e => c.callees ++ (t.callees ++ e.callees)
  | .call n args => n :: Expr.calleesList args
  | .lambda params body => body.callees.filter (· ∉ params)

def Expr.calleesList : List Expr → List String
  | [] => []
  | x :: xs => x.callees ++ Expr.calleesList xs

end

mutual

@[simp] theorem Expr.subst_none : (x : Expr) → x.subst .none = x
  | .number _ => rfl
  | .var _ => rfl
  | .unary _ x => by rw [subst, Expr.subst_none x]
  | .binary _ x y => by rw [subst, Expr.subst_none x, Expr.subst_none y]
  | .conditional c t e => by rw [subst, Expr.subst_none c, Expr.subst_none t, Expr.subst_none e]
  | .call _ args => by rw [subst, Expr.substList_none args]
  | .lambda _ body => by rw [subst, Numbers.without_none, Expr.subst_none body]

@[simp] theorem Expr.substList_none : (xs : List Expr) → Expr.substList .none xs = xs
  | [] => rfl
  | x :: xs => by rw [substList, Expr.subst_none x, Expr.substList_none xs]

end

/-- The numbers are written for no name that the expression calls. -/
def Numbers.Spares (σ : Numbers) (x : Expr) : Prop := ∀ n ∈ x.callees, σ n = .none

namespace Numbers.Spares

variable {σ : Numbers}

theorem none (x : Expr) : Numbers.none.Spares x := fun _ _ => rfl

theorem body {params : List String} {body : Expr} (h : σ.Spares (.lambda params body)) :
    (σ.without params).Spares body := by
  intro n hn
  unfold Numbers.without
  split
  · rfl
  · rename_i hparam
    exact h n (List.mem_filter.mpr ⟨hn, by simpa using hparam⟩)

/-- The arguments of a call with and without the numbers. -/
theorem forall₂ {P : Expr → Expr → Prop} (hP : ∀ x, σ.Spares x → P x (x.subst σ)) :
    ∀ {args : List Expr}, (∀ n ∈ Expr.calleesList args, σ n = .none) →
      List.Forall₂ P args (Expr.substList σ args)
  | [], _ => .nil
  | x :: xs, h => by
    rw [Expr.calleesList, List.forall_mem_append] at h
    exact .cons (hP x h.1) (Numbers.Spares.forall₂ hP h.2)

end Numbers.Spares

/-! ## What frames inherit -/

namespace Store

/-- What is left in a frame of the numbers with which the frame `callee` was opened: the names that
no frame on the way there binds. -/
def inherited (s : Store) (callee : FrameId) (σ : Numbers) (f : FrameId) : Numbers :=
  if f < callee then .none
  else if f = callee then σ
  else
    match (s.frame f).parent with
    | none => .none
    | some p => if p < f then (s.inherited callee σ p).without (s.bindings f).names else .none
termination_by f

variable {s t : Store} {callee : FrameId} {σ : Numbers}

theorem inherited_before {f : FrameId} (h : f < callee) : s.inherited callee σ f = .none := by
  rw [inherited, if_pos h]

theorem inherited_callee : s.inherited callee σ callee = σ := by
  rw [inherited, if_neg (Nat.lt_irrefl _), if_pos rfl]

theorem inherited_behind {f p : FrameId} (h : callee < f) (hp : (s.frame f).parent = some p)
    (hlt : p < f) :
    s.inherited callee σ f = (s.inherited callee σ p).without (s.bindings f).names := by
  rw [inherited, if_neg (Nat.not_lt.mpr (Nat.le_of_lt h)), if_neg (Nat.ne_of_gt h), hp]
  exact if_pos hlt

/-- What a frame inherits is up to the frames before it. -/
theorem inherited_congr {f : FrameId} (h : ∀ g ≤ f, t.frame g = s.frame g) :
    t.inherited callee σ f = s.inherited callee σ f := by
  rw [inherited, inherited, Store.bindings, Store.bindings, h f (Nat.le_refl f)]
  split
  · rfl
  split
  · rfl
  split
  · rfl
  · split
    · rename_i p _ hlt
      rw [inherited_congr fun g hg => h g (Nat.le_trans hg (Nat.le_of_lt hlt))]
    · rfl
termination_by f

end Store

/-! ## The two runs -/

/-- The place of a frame in the second run: the frame of the call is `home` there, and those behind
it stand one place earlier. -/
def placeInlined (callee home f : Nat) : Nat :=
  if f < callee then f else if f = callee then home else f - 1

section Place

variable {callee home f p : Nat}

theorem placeInlined_before (h : f < callee) : placeInlined callee home f = f := if_pos h

theorem placeInlined_callee : placeInlined callee home callee = home := by
  rw [placeInlined, if_neg (Nat.lt_irrefl _), if_pos rfl]

theorem placeInlined_behind (h : callee < f) : placeInlined callee home f = f - 1 := by
  rw [placeInlined, if_neg (Nat.not_lt.mpr (Nat.le_of_lt h)), if_neg (Nat.ne_of_gt h)]

/-- Parents stay older than their children. -/
theorem placeInlined_lt (hhome : home < callee) (hf : callee < f) (hp : p < f) :
    placeInlined callee home p < f - 1 := by
  unfold placeInlined
  split
  · omega
  · split <;> omega

end Place

/-- What the function is in the second run. -/
def Closure.inline (s : Store) (callee home : FrameId) (σ : Numbers) (c : Closure) : Closure :=
  { c with
    body := c.body.subst ((s.inherited callee σ c.frame).without c.params)
    frame := placeInlined callee home c.frame }

/-- The store `t` of the run without the call: it has no frame `callee`, and the functions have the
numbers in their bodies that their frames inherit. -/
structure Inlines (callee home : Nat) (σ : Numbers) (s t : Store) : Prop where
  home_before : home < callee
  callee_exists : callee < s.frames.size
  frames_size : t.frames.size + 1 = s.frames.size
  before : ∀ f : Nat, f < callee → t.frame f = s.frame f
  callee_parent : (s.frame callee).parent = some home
  callee_binds : ∀ n, (s.bindings callee).get? n = (σ n).map .number
  /-- Frames that were opened during the call. -/
  behind : ∀ f : Nat, callee < f → f < s.frames.size → ∃ p, p < f ∧ (s.frame f).parent = some p ∧
    t.frame (f - 1) = ⟨s.bindings f, some (placeInlined callee home p)⟩
  closures_size : t.closures.size = s.closures.size
  closure_frame : ∀ c, (s.closure c).frame < s.frames.size
  closure : ∀ c, t.closure c = (s.closure c).inline s callee home σ
  spares : ∀ c, ((s.inherited callee σ (s.closure c).frame).without
    (s.closure c).params).Spares (s.closure c).body

namespace Inlines

variable {callee home : Nat} {σ : Numbers} {s t : Store} {n : String}

/-- What a frame inherits is found when it is looked up. -/
theorem lookup_inherited (h : Inlines callee home σ s t) {f : FrameId} (hf : f < s.frames.size)
    {v : Float} (hn : s.inherited callee σ f n = some v) : s.lookup f n = some (.number v) := by
  rcases Nat.lt_trichotomy f callee with hlt | rfl | hgt
  · rw [Store.inherited_before hlt] at hn
    cases hn
  · rw [Store.inherited_callee] at hn
    have hbound := h.callee_binds n
    rw [hn] at hbound
    unfold Store.bindings at hbound
    rw [Store.lookup, hbound]
    rfl
  · obtain ⟨p, hlt, hparent, -⟩ := h.behind f hgt hf
    rw [Store.inherited_behind hgt hparent hlt, Numbers.without] at hn
    split at hn
    · cases hn
    · rename_i hnone
      have hunbound := Bindings.get?_eq_none_iff.mpr hnone
      unfold Store.bindings at hunbound
      rw [Store.lookup, hunbound, hparent]
      dsimp only
      rw [if_pos hlt]
      exact h.lookup_inherited (Nat.lt_trans hlt hf) hn
termination_by f

theorem lookup_before (h : Inlines callee home σ s t) {f : FrameId} (hf : f < callee) :
    t.lookup f n = s.lookup f n := by
  rw [Store.lookup, Store.lookup, h.before f hf]
  split
  · rfl
  split
  · rfl
  · split
    · rename_i p _ hlt
      exact h.lookup_before (Nat.lt_trans hlt hf)
    · rfl
termination_by f

/-- All other names are found in both runs, with the same value. -/
theorem lookup_eq (h : Inlines callee home σ s t) {f : FrameId} (hf : f < s.frames.size)
    (hn : s.inherited callee σ f n = none) :
    t.lookup (placeInlined callee home f) n = s.lookup f n := by
  rcases Nat.lt_trichotomy f callee with hlt | rfl | hgt
  · rw [placeInlined_before hlt, h.lookup_before hlt]
  · rw [Store.inherited_callee] at hn
    have hunbound := h.callee_binds n
    rw [hn] at hunbound
    unfold Store.bindings at hunbound
    have hlookup : s.lookup f n = s.lookup home n := by
      rw [Store.lookup, hunbound, h.callee_parent]
      exact if_pos h.home_before
    rw [placeInlined_callee, hlookup, h.lookup_before h.home_before]
  · obtain ⟨p, hlt, hparent, hframe⟩ := h.behind f hgt hf
    rw [placeInlined_behind hgt, Store.lookup, Store.lookup, hframe, hparent]
    dsimp only
    unfold Store.bindings
    split
    · rfl
    · rename_i hunbound
      rw [if_pos hlt, if_pos (placeInlined_lt h.home_before hgt hlt)]
      refine h.lookup_eq (Nat.lt_trans hlt hf) ?_
      rw [Store.inherited_behind hgt hparent hlt, Numbers.without, Store.bindings,
        if_neg (Bindings.get?_eq_none_iff.mp hunbound)] at hn
      exact hn
termination_by f

/-! ### What becomes of the stores -/

/-- What a frame inherits is up to the frames that are there, and so is what a function is in the
second run. -/
theorem inherited_kept {s' : Store} (hs : ∀ g : Nat, g < s.frames.size → s'.frame g = s.frame g)
    {f : FrameId} (hf : f < s.frames.size) :
    s'.inherited callee σ f = s.inherited callee σ f :=
  Store.inherited_congr fun g hg => hs g (Nat.lt_of_le_of_lt hg hf)

theorem inline_kept {s' : Store} (hs : ∀ g : Nat, g < s.frames.size → s'.frame g = s.frame g)
    {c : Closure} (hframe : c.frame < s.frames.size) :
    c.inline s' callee home σ = c.inline s callee home σ := by
  rw [Closure.inline, Closure.inline, inherited_kept hs hframe]

theorem addClosure (h : Inlines callee home σ s t) {c : Closure} (hframe : c.frame < s.frames.size)
    (hspares : ((s.inherited callee σ c.frame).without c.params).Spares c.body) :
    Inlines callee home σ (s.addClosure c).2 (t.addClosure (c.inline s callee home σ)).2 := by
  -- No old closure reads the new one, so what it inherits from the callee is as before.
  have hold : ∀ g : Nat, g < s.frames.size → (s.addClosure c).2.frame g = s.frame g :=
    fun _ _ => rfl
  exact {
    home_before := h.home_before
    callee_exists := h.callee_exists
    frames_size := h.frames_size
    before := h.before
    callee_parent := h.callee_parent
    callee_binds := h.callee_binds
    behind := h.behind
    closures_size := by
      simp only [Store.addClosure, Array.size_push, h.closures_size]
    closure_frame i := by
      rw [Store.closure_addClosure]
      split
      · exact hframe
      · exact h.closure_frame i
    closure i := by
      rw [Store.closure_addClosure, Store.closure_addClosure, h.closures_size]
      split
      · exact (inline_kept hold hframe).symm
      · exact (h.closure i).trans (inline_kept hold (h.closure_frame i)).symm
    spares i := by
      rw [Store.closure_addClosure]
      split
      · rw [inherited_kept hold hframe]
        exact hspares
      · rw [inherited_kept hold (h.closure_frame i)]
        exact h.spares i }

theorem addFrame (h : Inlines callee home σ s t) (b : Bindings Value) {p : FrameId}
    (hp : p < s.frames.size) :
    Inlines callee home σ (s.addFrame b (some p)).2
      (t.addFrame b (some (placeInlined callee home p))).2 := by
  have hsize := h.frames_size
  have hcallee := h.callee_exists
  have hold : ∀ g : Nat, g < s.frames.size → (s.addFrame b (some p)).2.frame g = s.frame g :=
    fun g hg => by rw [Store.frame_addFrame, if_neg (Nat.ne_of_lt hg)]
  have hold' : ∀ g : Nat, g < t.frames.size →
      (t.addFrame b (some (placeInlined callee home p))).2.frame g = t.frame g :=
    fun g hg => by rw [Store.frame_addFrame, if_neg (Nat.ne_of_lt hg)]
  exact {
    home_before := h.home_before
    callee_exists := by
      rw [Store.addFrame, Array.size_push]
      exact Nat.lt_succ_of_lt hcallee
    frames_size := by
      rw [Store.addFrame, Store.addFrame, Array.size_push, Array.size_push, hsize]
    before f hf := by rw [hold f (by omega), hold' f (by omega), h.before f hf]
    callee_parent := by rw [hold callee hcallee, h.callee_parent]
    callee_binds n := by
      rw [Store.bindings, hold callee hcallee]
      exact h.callee_binds n
    behind f hgt hf := by
      by_cases hnew : f = s.frames.size
      · -- The callee's frame has no partner, so behind it every frame stands one place earlier.
        have hnew' : f - 1 = t.frames.size := by omega
        refine ⟨p, hnew ▸ hp, ?_, ?_⟩
        · rw [Store.frame_addFrame, if_pos hnew]
        · rw [Store.frame_addFrame, if_pos hnew', Store.bindings, Store.frame_addFrame,
            if_pos hnew]
      · rw [Store.addFrame, Array.size_push] at hf
        have hlt : f < s.frames.size := by omega
        rw [hold f hlt, hold' (f - 1) (by omega), Store.bindings, hold f hlt]
        exact h.behind f hgt hlt
    closures_size := h.closures_size
    closure_frame c := by
      rw [Store.addFrame, Array.size_push]
      exact Nat.lt_succ_of_lt (h.closure_frame c)
    closure c := (h.closure c).trans (inline_kept hold (h.closure_frame c)).symm
    spares c := by
      have hspares := h.spares c
      rwa [← inherited_kept hold (h.closure_frame c)] at hspares }

/-- The stores when the frame of the call has been opened. -/
theorem of_call (hhome : home < s.frames.size)
    (hframes : ∀ c, (s.closure c).frame < s.frames.size) {b : Bindings Value}
    (hb : ∀ n, b.get? n = (σ n).map .number) :
    Inlines s.frames.size home σ (s.addFrame b (some home)).2 s := by
  have hold : ∀ g : Nat, g < s.frames.size → (s.addFrame b (some home)).2.frame g = s.frame g :=
    fun g hg => by rw [Store.frame_addFrame, if_neg (Nat.ne_of_lt hg)]
  have hnew : (s.addFrame b (some home)).2.frame s.frames.size = ⟨b, some home⟩ := by
    rw [Store.frame_addFrame, if_pos rfl]
  have hinherited (c : ClosureId) : (s.addFrame b (some home)).2.inherited s.frames.size σ
      (s.closure c).frame = .none := Store.inherited_before (hframes c)
  -- At the call itself nothing has been made behind the callee's frame yet: every old closure lies
  -- before it and inherits nothing from it.
  exact {
    home_before := hhome
    callee_exists := by
      rw [Store.addFrame, Array.size_push]
      exact Nat.lt_succ_self _
    frames_size := by rw [Store.addFrame, Array.size_push]
    before f hf := (hold f hf).symm
    callee_parent := by rw [hnew]
    callee_binds n := by
      rw [Store.bindings, hnew]
      exact hb n
    behind f hgt hf := by
      rw [Store.addFrame, Array.size_push] at hf
      omega
    closures_size := rfl
    closure_frame c := by
      rw [Store.addFrame, Array.size_push]
      exact Nat.lt_succ_of_lt (hframes c)
    closure c := by
      have hplace : placeInlined s.frames.size home (s.closure c).frame = (s.closure c).frame :=
        placeInlined_before (hframes c)
      have hbody := (hinherited c)
      rw [Closure.inline]
      unfold Store.closure at hbody hplace ⊢
      rw [show (s.addFrame b (some home)).2.closures = s.closures from rfl]
      rw [hbody, Numbers.without_none, Expr.subst_none, hplace]
    spares c := by
      have hbody := hinherited c
      unfold Store.closure at hbody ⊢
      rw [show (s.addFrame b (some home)).2.closures = s.closures from rfl, hbody,
        Numbers.without_none]
      exact Numbers.Spares.none _ }

end Inlines

/-! ## The correspondence -/

namespace Numbers.Spares

variable {σ : Numbers} {x y : Expr}

theorem mono (h : σ.Spares x) (hsub : ∀ n ∈ y.callees, n ∈ x.callees) : σ.Spares y :=
  fun n hn => h n (hsub n hn)

end Numbers.Spares

/-- A frame inherits only numbers of the call. -/
theorem Store.of_inherited {s : Store} {callee : FrameId} {σ : Numbers} {n : String} {v : Float}
    {f : FrameId} (h : s.inherited callee σ f n = some v) : σ n = some v := by
  fun_induction Store.inherited s callee σ f with
  | case1 => cases h
  | case2 => exact h
  | case3 => cases h
  | case4 f _ _ p _ _ ih =>
    unfold Numbers.without at h
    split at h
    · cases h
    · exact ih h
  | case5 => cases h

/-- The run of a body with numbers written into it follows the run of the call. What has happened so
far is the store of the call. -/
def inlining (callee home : Nat) (σ : Numbers) : Correspondence Store where
  later w w' := w.frames.toList <+: w'.frames.toList
  stores w s t := s = w ∧ Inlines callee home σ s t
  closures _ c c' := c' = c
  names w f f' n n' := f < w.frames.size ∧ f' = placeInlined callee home f ∧ n' = n ∧
    w.inherited callee σ f n = none
  exprs w f f' x x' := f < w.frames.size ∧ f' = placeInlined callee home f ∧
    x' = x.subst (w.inherited callee σ f) ∧ (w.inherited callee σ f).Spares x
  faults e e' := e' = e

section Inlining

variable {callee home : Nat} {σ : Numbers} {w w' s t : Store} {f f' : FrameId}

theorem later_inlining (h : (inlining callee home σ).later w w') (hf : f < w.frames.size) :
    f < w'.frames.size ∧ w'.inherited callee σ f = w.inherited callee σ f := by
  have hkept : ∀ {g : FrameId} {frame : Frame}, w.frames[g]? = some frame →
      w'.frames[g]? = some frame := fun hg => State.getElem?_mono h hg
  refine ⟨?_, Inlines.inherited_kept (fun g hg => ?_) hf⟩
  · exact (Array.getElem?_eq_some_iff.mp (hkept (Array.getElem?_eq_getElem hf))).1
  · have hframe := Array.getElem?_eq_getElem hg
    rw [Store.frame_eq hframe, Store.frame_eq (hkept hframe)]

/-- The expression that is evaluated without the call is built like that of the call, except where a
variable of it has become a number. -/
theorem expr_inlining (hfree : ∀ n, σ n ≠ none → constant? n = none) {x x' : Expr}
    (h : (inlining callee home σ).exprs w f f' x x') :
    (inlining callee home σ).Inlined w f x x' ∨
      Expr.Matches ((inlining callee home σ).names w f f') ((inlining callee home σ).exprs w f f')
        (fun params _ params' _ => List.Forall₂ SameOrFree params params') x x' := by
  obtain ⟨hf, rfl, rfl, hspares⟩ := h
  have hpart : ∀ y : Expr, (∀ n ∈ y.callees, n ∈ x.callees) → (inlining callee home σ).exprs w f
      (placeInlined callee home f) y (y.subst (w.inherited callee σ f)) :=
    fun y hy => ⟨hf, rfl, rfl, hspares.mono hy⟩
  -- A variable the call binds is a number on the one side and a lookup on the other. Every other
  -- shape keeps its head, and its parts are substituted by the same numbers.
  cases x with
  | number v => exact .inr (.number v)
  | var n =>
    rw [Expr.subst]
    cases hn : w.inherited callee σ f n with
    | none => exact .inr (.var ⟨hf, rfl, rfl, hn⟩)
    | some v =>
      refine .inl (.intro (hfree n (by rw [Store.of_inherited hn]; simp)) ?_)
      rintro s t ⟨rfl, hst⟩
      exact hst.lookup_inherited hf hn
  | unary op x => exact .inr (.unary (hpart x fun n hn => hn))
  | binary op x y =>
    exact .inr (.binary (hpart x fun n hn => List.mem_append_left _ hn)
      (hpart y fun n hn => List.mem_append_right _ hn))
  | conditional c t e =>
    exact .inr (.conditional (hpart c fun n hn => List.mem_append_left _ hn)
      (hpart t fun n hn => List.mem_append_right _ (List.mem_append_left _ hn))
      (hpart e fun n hn => List.mem_append_right _ (List.mem_append_right _ hn)))
  | call n args =>
    obtain ⟨hn, hargs⟩ := List.forall_mem_cons.mp hspares
    refine .inr (.call ⟨hf, rfl, rfl, hn⟩ ?_)
    exact Numbers.Spares.forall₂ (fun x hx => ⟨hf, rfl, rfl, hx⟩) hargs
  | lambda params body => exact .inr (.lambda (List.forall₂_same.mpr fun _ _ => .inl rfl))

/-- A frame that a call opens inherits what the frame of the function does, but for the
parameters. -/
theorem Store.inherited_addFrame {c : Closure} {args : List Value}
    (hframe : c.frame < s.frames.size) (hcallee : callee < s.frames.size)
    (hargs : args.length = c.arity) :
    (s.addFrame (.ofList (c.params.zip args)) (some c.frame)).2.inherited callee σ s.frames.size =
      (s.inherited callee σ c.frame).without c.params := by
  have hnew : (s.addFrame (.ofList (c.params.zip args)) (some c.frame)).2.frame s.frames.size =
      ⟨.ofList (c.params.zip args), some c.frame⟩ := by
    rw [Store.frame_addFrame, if_pos rfl]
  have hold : ∀ g : Nat, g < s.frames.size →
      (s.addFrame (.ofList (c.params.zip args)) (some c.frame)).2.frame g = s.frame g :=
    fun g hg => by rw [Store.frame_addFrame, if_neg (Nat.ne_of_lt hg)]
  rw [Store.inherited_behind hcallee (by rw [hnew]) hframe, Inlines.inherited_kept hold hframe,
    Store.bindings, hnew]
  refine Numbers.without_congr (fun n => ?_) _
  rw [Bindings.mem_names_ofList, List.map_fst_zip (Nat.le_of_eq hargs.symm)]

theorem inlining_lawful (hfree : ∀ n, σ n ≠ none → constant? n = none) :
    (inlining callee home σ).Lawful where
  refl _ := List.prefix_rfl
  trans h h' := List.IsPrefix.trans h h'
  closures_later _ h := h
  names_later := fun hw ⟨hf, hf', hn', hn⟩ => by
    obtain ⟨hsize, hinherited⟩ := later_inlining hw hf
    exact ⟨hsize, hf', hn', by rw [hinherited, hn]⟩
  exprs_later := fun hw ⟨hf, hf', hx, hspares⟩ => by
    obtain ⟨hsize, hinherited⟩ := later_inlining hw hf
    exact ⟨hsize, hf', by rw [hinherited, hx], by rw [hinherited]; exact hspares⟩
  expr := expr_inlining hfree
  free := fun ⟨_, _, hn, _⟩ => .inl hn
  lookup := fun {w s t f f' n n'} hst hname => by
    obtain ⟨rfl, hst⟩ := hst
    obtain ⟨hf, rfl, rfl, hn⟩ := hname
    rw [hst.lookup_eq hf hn]
    cases s.lookup f n' with
    | none => exact .none
    | some v => exact .some (Correspondence.values_refl (fun _ => rfl) v)
  made := fun {w s t f f' params params' body body'} hst hx => by
    obtain ⟨rfl, hst⟩ := hst
    obtain ⟨hf, rfl, hbody, hspares⟩ := hx
    cases hbody
    refine ⟨(s.addClosure ⟨params, body, f, none⟩).2, List.prefix_rfl, ⟨rfl, ?_⟩,
      hst.closures_size⟩
    exact hst.addClosure (c := ⟨params, body, f, none⟩) hf hspares.body
  arity := fun {w s t c c'} hst hc => by
    subst hc
    rw [hst.2.closure]
    rfl
  -- A closure that was made inside the call opens a frame behind the callee's, one place further
  -- than its partner does, and its parameters shadow the substituted ones.
  opened := fun {w s t c c' args args'} hst hc hargs harity => by
    obtain ⟨rfl, hst⟩ := hst
    subst hc
    have hframe := hst.closure_frame c'
    have hopened := hst.addFrame (.ofList ((s.closure c').params.zip args)) hframe
    have hplace : t.frames.size = placeInlined callee home s.frames.size := by
      rw [placeInlined_behind hst.callee_exists, ← hst.frames_size]
      rfl
    refine ⟨_, ?_, ⟨rfl, ?_⟩, ?_, hplace, ?_, ?_⟩
    · exact (State.Grows.openFrame _).extends (s := ⟨s, #[]⟩).frames
    · rw [Correspondence.eq_of_forall₂_values id hargs, hst.closure]
      exact hopened
    · rw [Store.addFrame, Array.size_push]
      exact Nat.lt_succ_self _
    · rw [Store.inherited_addFrame hframe hst.callee_exists harity, hst.closure]
      rfl
    · rw [Store.inherited_addFrame hframe hst.callee_exists harity]
      exact hst.spares c'
  faults_refl _ := rfl
  undefinedVariable h := by rw [h.2.2.1]; rfl
  unknownFunction h := by rw [h.2.2.1]; rfl
  arityMismatch := fun {w s t c c' f f' n n'} expected got hst hc hn => by
    subst hc
    rw [hst.2.closure, hn.2.2.1]
    rfl
  notNumber := fun {w s t c c'} place hst hc => by
    subst hc
    rw [hst.2.closure]
    rfl

/-- Both runs end alike. -/
theorem eq_of_ends_inlining {r r' : Except Fault Value × State}
    (h : (inlining callee home σ).Ends w (inlining callee home σ).Values r r') :
    r'.1 = r.1 ∧ printedTexts r'.2.log.toList = printedTexts r.2.log.toList := by
  cases h with
  | ok _ h hv => exact ⟨by rw [Correspondence.eq_of_values id hv], h.printed⟩
  | error he _ h =>
    cases he
    exact ⟨rfl, h.printed⟩

end Inlining

end Abacus
