import Abacus.Proofs.Eval.Simulation
import Abacus.Proofs.Program.Renaming
import Abacus.Proofs.Session.Checkpoint

/-!
# Bindings that a program does not mention

A session in which numbers were set gives a source what it gives on its own, if none of the set
names occurs in it: the same value or the same error, and the same printed texts. When the source
succeeds, its bindings come behind those that were set, which are as they were; and it has made the
same functions and opened the same frames (`Session.eval_seeded`).

The two runs are related by a simulation that says the same of all frames but the root frame, to
which the second run has the additional entries in front (`Seeds`). An entry in front is found only
by its own name, and a new name comes behind it.
-/

namespace Abacus

/-! ## Entries in front -/

namespace Bindings

variable {α : Type}

/-- Entries before the bindings. -/
def behind (front : List (String × α)) (b : Bindings α) : Bindings α := ⟨front ++ b.entries⟩

variable {front : List (String × α)} {b : Bindings α} {n : String}

theorem get?_behind (h : n ∉ front.map Prod.fst) : (b.behind front).get? n = b.get? n := by
  obtain ⟨entries⟩ := b
  simp only [behind, get?]
  induction front with
  | nil => rfl
  | cons e front ih =>
    obtain ⟨hne, hrest⟩ := not_or.mp (mt List.mem_cons.mpr h)
    rw [List.cons_append, findEntry, if_neg hne, ih hrest]

theorem set_behind (v : α) (h : n ∉ front.map Prod.fst) :
    (b.behind front).set n v = (b.set n v).behind front := by
  obtain ⟨entries⟩ := b
  simp only [behind, set, mk.injEq]
  induction front with
  | nil => rfl
  | cons e front ih =>
    obtain ⟨hne, hrest⟩ := not_or.mp (mt List.mem_cons.mpr h)
    rw [List.cons_append, setEntry, if_neg hne, ih hrest, List.cons_append]

end Bindings

/-! ## The simulation -/

variable {front : List (String × Value)}

/-- The root frame of the second run has the entries in front, and other frames are the same. -/
inductive SeededFrames (front : List (String × Value)) : FrameId → Frame → Frame → Prop
  | root (frame : Frame) :
      SeededFrames front Store.root frame { frame with bindings := frame.bindings.behind front }
  | other {f : FrameId} (hf : f ≠ Store.root) (frame : Frame) : SeededFrames front f frame frame

theorem SeededFrames.eq_root {frame frame' : Frame}
    (h : SeededFrames front Store.root frame frame') :
    frame' = { frame with bindings := frame.bindings.behind front } := by
  generalize hroot : Store.root = f at h
  cases h with
  | root => rfl
  | other hf => exact absurd hroot.symm hf

theorem SeededFrames.eq_of_ne {f : FrameId} {frame frame' : Frame}
    (h : SeededFrames front f frame frame') (hf : f ≠ Store.root) : frame' = frame := by
  cases h with
  | root => exact absurd rfl hf
  | other => rfl

/-- The run of the same program where the root frame has more entries, whose names do not occur in
the program. -/
def seeding (front : List (String × Value)) : Simulation Unit where
  later _ _ := True
  sized _ n := 0 < n
  frames _ := SeededFrames front
  closures _ c c' := c' = c ∧ (front.map Prod.fst).Disjoint c.body.names
  names _ _ n n' := n' = n ∧ n ∉ front.map Prod.fst
  exprs _ _ e e' := e' = e ∧ (front.map Prod.fst).Disjoint e.names
  faults e e' := e' = e
  target n := n ∉ front.map Prod.fst

theorem matches_of_disjoint {f : FrameId} {e : Expr}
    (h : (front.map Prod.fst).Disjoint e.names) :
    Expr.Matches ((seeding front).names () f) ((seeding front).exprs () f)
      (fun params body params' body' =>
        (seeding front).closures () ⟨params, body, f, none⟩ ⟨params', body', f, none⟩) e e := by
  cases e with
  | number v => exact .number v
  | var n => exact .var ⟨rfl, fun hn => h hn (List.mem_singleton_self n)⟩
  | unary op e => exact .unary ⟨rfl, h⟩
  | binary op e₁ e₂ =>
    rw [Expr.names, List.disjoint_append_right] at h
    exact .binary ⟨rfl, h.1⟩ ⟨rfl, h.2⟩
  | conditional c t e =>
    rw [Expr.names, List.disjoint_append_right, List.disjoint_append_right] at h
    exact .conditional ⟨rfl, h.1⟩ ⟨rfl, h.2.1⟩ ⟨rfl, h.2.2⟩
  | call n args =>
    rw [Expr.names, List.disjoint_cons_right] at h
    refine .call ⟨rfl, h.1⟩ (List.forall₂_same.mpr fun e he => ⟨rfl, fun m hm hme => ?_⟩)
    exact h.2 hm (Expr.mem_namesList.mpr ⟨e, he, hme⟩)
  | lambda params body =>
    rw [Expr.names, List.disjoint_append_right] at h
    exact .lambda ⟨rfl, h.2⟩

theorem seeding_lawful (front : List (String × Value)) : (seeding front).Lawful where
  refl _ := trivial
  trans _ _ := trivial
  frames_later _ h := h
  closures_later _ h := h
  names_later _ h := h
  exprs_later _ h := h
  missing _ := ⟨rfl, List.disjoint_nil_right _⟩
  expr := fun ⟨heq, h⟩ => by
    subst heq
    exact matches_of_disjoint h
  free h := .inl h.1
  -- Only the root differs, and a name of the program is bound in it behind the seeds only.
  get? hframe := fun ⟨heq, hn⟩ => by
    subst heq
    cases hframe with
    | root frame => exact Bindings.get?_behind hn
    | other hf frame => rfl
  parent hframe := by cases hframe <;> rfl
  above _ _ _ hn := hn
  params := fun ⟨heq, _⟩ => by
    subst heq
    exact List.forall₂_same.mpr fun _ _ => .inl rfl
  closure_name h := congrArg Closure.name h.1
  named name := fun ⟨heq, h⟩ => ⟨congrArg (fun c : Closure => { c with name }) heq, h⟩
  opened := fun ⟨heq, h⟩ _ hn => by
    subst heq
    exact ⟨(), trivial, Nat.succ_pos _, .other (Nat.ne_of_gt hn) _, rfl, h⟩
  bind v hn hframe := by
    rw [hframe.eq_root, Bindings.set_behind v hn]
    exact .root _
  faults_refl _ := rfl
  undefinedVariable h := by rw [h.1]; rfl
  unknownFunction h := by rw [h.1]; rfl
  arityMismatch _ _ h hn := by rw [h.1, hn.1]; rfl
  notNumber _ h := by rw [h.1]; rfl
  asResult h := by rw [h.1]; rfl

theorem Program.stmts_of_disjoint {p : Program} (h : (front.map Prod.fst).Disjoint p.names) :
    List.Forall₂ ((seeding front).Stmts () Store.root) p.statements p.statements := by
  refine List.forall₂_same.mpr fun stmt hstmt => ?_
  have hnames : (front.map Prod.fst).Disjoint stmt.names := fun n hn hin =>
    h hn (Program.mem_names.mpr ⟨stmt, hstmt, hin⟩)
  cases stmt with
  | assign name x =>
    rw [Stmt.names, List.disjoint_cons_right] at hnames
    exact .assign hnames.1 ⟨rfl, hnames.2⟩
  | expr x => exact .expr ⟨rfl, hnames⟩

theorem bindings_root_of_seeding {s t : Store} (h : (seeding front).Stores () s t) :
    t.bindings Store.root = (s.bindings Store.root).behind front := by
  have hsize : Store.root < s.frames.size := h.sized
  rw [Store.bindings, (h.frame_at hsize).eq_root]
  rfl

theorem closures_of_seeding {s t : Store} (h : (seeding front).Stores () s t) :
    t.closures = s.closures := by
  refine Array.ext h.closures_size fun c ht hs => ?_
  exact (h.closure (Array.getElem?_eq_getElem hs) (Array.getElem?_eq_getElem ht)).1

/-- A frame that is not the root frame is the same in both stores. -/
theorem frame_of_seeding {s t : Store} (h : (seeding front).Stores () s t) {f : FrameId}
    (hf : f ≠ Store.root) : t.frame f = s.frame f := by
  by_cases hs : f < s.frames.size
  · exact SeededFrames.eq_of_ne (h.frame_at hs) hf
  · -- A place that was not given out holds the same empty frame in every store.
    have ht : ¬ f < t.frames.size := h.frames_size ▸ hs
    simp [Store.frame, Array.getD, hs, ht]

/-! ## Sources -/

/-- Where a source mentions no name of the entries, its answers are the same and the stores go on to
correspond. -/
theorem Store.evalProgram_seeded {s t : Store} (h : (seeding front).Stores () s t) (set : Settings)
    (source : String) (hnew : ∀ p, Program.ofSource source = .ok p →
      (front.map Prod.fst).Disjoint p.names) :
    let answer := s.evalProgram set Store.root source
    let answer' := t.evalProgram set Store.root source
    answer'.1.result = answer.1.result ∧ printedTexts answer'.1.log = printedTexts answer.1.log ∧
      (seeding front).Stores () answer.2 answer'.2 := by
  unfold Store.evalProgram
  cases hp : Program.ofSource source with
  | error e => exact ⟨rfl, rfl, h⟩
  | ok p =>
    have hruns := Settings.evalProgram_simulates (seeding_lawful front) set
      (Program.stmts_of_disjoint (hnew p hp))
    obtain ⟨w, hstores, hprinted, hresult⟩ := hruns.start h
    unfold Outcome.reply
    refine ⟨?_, ?_, hstores⟩
    · rcases hresult with ⟨v, hv, hv'⟩ | ⟨e, _, rfl, hfault, hfault'⟩
      · simp only [hv, hv']
      · simp only [hfault, hfault']
    · unfold printedTexts at hprinted ⊢
      rw [List.filterMap_append, List.filterMap_append, hprinted]

/-! ## Sessions -/

namespace Session

/-- The operation that sets a name. -/
def Operation.ofSeed (seed : String × Document) : Operation := .set seed.1 seed.2

/-- Setting names only adds entries to the root frame of the empty session. -/
theorem store_of_seeds (seeds : List (String × Document)) :
    ∃ b : Bindings Value, (Session.empty.performAll (seeds.map .ofSeed)).store =
        ⟨#[⟨b, none⟩], #[]⟩ ∧ ∀ n ∈ b.names, n ∈ seeds.map Prod.fst := by
  suffices h : ∀ (b : Bindings Value), ∃ b' : Bindings Value,
      ((Session.mk ⟨#[⟨b, none⟩], #[]⟩).performAll (seeds.map .ofSeed)).store =
        ⟨#[⟨b', none⟩], #[]⟩ ∧ ∀ n ∈ b'.names, n ∈ b.names ∨ n ∈ seeds.map Prod.fst by
    obtain ⟨b, hstore, hnames⟩ := h .empty
    exact ⟨b, hstore, fun n hn => (hnames n hn).resolve_left List.not_mem_nil⟩
  intro b
  induction seeds generalizing b with
  | nil => exact ⟨b, rfl, fun n hn => .inl hn⟩
  | cons seed seeds ih =>
    have hstep : ∃ b₁ : Bindings Value, (Session.mk ⟨#[⟨b, none⟩], #[]⟩).perform (.ofSeed seed) =
        ⟨⟨#[⟨b₁, none⟩], #[]⟩⟩ ∧ ∀ n ∈ b₁.names, n ∈ b.names ∨ n = seed.1 := by
      unfold Operation.ofSeed
      simp only [perform]
      cases hset : (Session.mk ⟨#[⟨b, none⟩], #[]⟩).set seed.1 seed.2 with
      | error e => exact ⟨b, rfl, fun n hn => .inl hn⟩
      | ok s =>
        obtain ⟨-, x, rfl⟩ := bind_of_set hset
        exact ⟨b.set seed.1 (.number x), rfl, fun n hn => (Bindings.mem_names_set.mp hn).symm⟩
    obtain ⟨b₁, hperform, hnames₁⟩ := hstep
    obtain ⟨b', hstore, hnames⟩ := ih b₁
    rw [List.map_cons, performAll, List.foldl_cons, hperform]
    refine ⟨b', hstore, fun n hn => ?_⟩
    rw [List.map_cons, List.mem_cons]
    rcases hnames n hn with h | h
    · exact (hnames₁ n h).imp_right .inl
    · exact .inr (.inr h)

theorem stores_of_seeds {b : Bindings Value} :
    (seeding b.entries).Stores () Store.initial ⟨#[⟨b, none⟩], #[]⟩ where
  sized := Nat.succ_pos 0
  frames_size := rfl
  frame {g frame frame'} hg hg' := by
    match g, hg, hg' with
    | 0, rfl, rfl =>
      have hroot : SeededFrames b.entries Store.root ⟨.empty, none⟩
          ⟨Bindings.empty.behind b.entries, none⟩ := .root ⟨.empty, none⟩
      rwa [Bindings.behind, Bindings.empty, List.append_nil] at hroot
    | _ + 1, hg, _ => cases hg
  closures_size := rfl
  closure hc _ := by cases hc

/-- In a session in which only names were set that a source does not mention, the source gives what
it gives on its own: the same value or the same failure, and the same printed texts. If it succeeds,
then the bindings that were set stay as they are, and those of the source come behind them; and the
functions at all places are the same, and so are all frames but the root frame. -/
theorem eval_seeded (set : Settings) (source : String) (seeds : List (String × Document))
    (hnew : ∀ p, Program.ofSource source = .ok p → ∀ seed ∈ seeds, seed.1 ∉ p.names) :
    let s := Session.empty.performAll (seeds.map .ofSeed)
    let answer := s.eval set source
    let alone := Store.initial.evalProgram set Store.root source
    answer.1.result = alone.1.result ∧ printedTexts answer.1.log = printedTexts alone.1.log ∧
      ∀ x, answer.1.result = .ok x → answer.2.bindings.entries =
          s.bindings.entries ++ (alone.2.bindings Store.root).entries ∧
        answer.2.store.closures = alone.2.closures ∧
        ∀ f, f ≠ Store.root → answer.2.store.frame f = alone.2.frame f := by
  intro s answer alone
  obtain ⟨b, hstore, hnames⟩ := store_of_seeds seeds
  have hs : s = ⟨⟨#[⟨b, none⟩], #[]⟩⟩ := congrArg Session.mk hstore
  have hdisjoint : ∀ p, Program.ofSource source = .ok p → b.names.Disjoint p.names := by
    intro p hp n hn hin
    obtain ⟨seed, hseed, rfl⟩ := List.mem_map.mp (hnames n hn)
    exact hnew p hp seed hseed hin
  obtain ⟨hresult, hprinted, hstores⟩ :=
    Store.evalProgram_seeded stores_of_seeds set source hdisjoint
  rw [← hstore] at hresult hprinted hstores
  have hreply : answer.1 = (s.store.evalProgram set Store.root source).1 := by
    simp only [answer, Session.eval]
    split <;> rfl
  rw [hreply]
  refine ⟨hresult, hprinted, fun x hx => ?_⟩
  have hafter : answer.2 = ⟨(s.store.evalProgram set Store.root source).2⟩ := by
    simp only [answer, Session.eval, hx]
  have hseeds : s.bindings = b := by rw [hs]; rfl
  rw [hafter, hseeds]
  exact ⟨congrArg Bindings.entries (bindings_root_of_seeding hstores),
    closures_of_seeding hstores, fun f hf => frame_of_seeding hstores hf⟩

/-- One name is set twice, and the program makes a function that calls itself. -/
theorem eval_seeded_factorial :
    let set : Settings := ⟨false, false, 8⟩
    let source := "def f(n) = if n == 0 then 1 else n * f(n - 1); x = print(f(2)) + 1"
    let seeds : List (String × Document) := [("a", .int 1), ("b", .int 2), ("a", .int 5)]
    let s := Session.empty.performAll (seeds.map .ofSeed)
    let answer := s.eval set source
    let alone := Store.initial.evalProgram set Store.root source
    (∀ p, Program.ofSource source = .ok p → ∀ seed ∈ seeds, seed.1 ∉ p.names) ∧
      alone.1.result = .ok 3 ∧ printedTexts answer.1.log = printedTexts alone.1.log ∧
      answer.2.names = ["a", "b", "f", "x"] ∧ answer.2.bindings.entries =
        s.bindings.entries ++ (alone.2.bindings Store.root).entries ∧
      answer.2.store.closures = alone.2.closures := by
  intro set source seeds s answer alone
  have hnames : ((Program.ofSource source).toOption.map Program.names).all
      (fun names => seeds.all fun seed => seed.1 ∉ names) := by decide +kernel
  have hnew : ∀ p, Program.ofSource source = .ok p → ∀ seed ∈ seeds, seed.1 ∉ p.names := by
    intro p hp seed hseed
    rw [hp] at hnames
    exact of_decide_eq_true (List.all_eq_true.mp hnames seed hseed)
  have hvalue : alone.1.result = .ok 3 := by decide +kernel
  obtain ⟨hresult, hprinted, hafter⟩ := eval_seeded set source seeds hnew
  obtain ⟨hentries, hclosures, -⟩ := hafter 3 (hresult.trans hvalue)
  exact ⟨hnew, hvalue, hprinted, by decide +kernel, hentries, hclosures⟩

end Session

end Abacus
