import Abacus.Proofs.Eval.Simulation
import Abacus.Proofs.Program.Renaming

/-!
# Running a program with a renamed parameter

The name of a parameter does not matter: with a new name for it a program has the same value, prints
the same and leaves the same root bindings, or it fails with the same error, whose text shows the
old name where the other one shows the new name (`Settings.evalProgram_renamesParam`). There is one
exception. A call by an empty name is reported under the name that the function was given, so that a
parameter without a name does not show in the text of such an error
(`Settings.evalProgram_renamesParam_empty`).

Names are looked up through frames that any function may have opened, so that whether `x` stands for
a renamed parameter is a matter of the frame. A world says it of every frame: it is a list of truth
values. From a frame to the one above it the answer changes only where a function with a parameter
`x` of its own was called, and then `x` is found before anything above matters
(`RenamedFrames.above`).
-/

namespace Abacus

variable {x y : String}

/-! ## Names in bindings -/

theorem renameName_of_ne {n : String} (h : n ≠ x) : renameName x y n = n := if_neg h

/-- Names that are not the new one stay apart. -/
theorem renameName_inj {n m : String} (hn : n ≠ y) (hm : m ≠ y) :
    renameName x y n = renameName x y m ↔ n = m := by
  unfold renameName
  split <;> split <;> grind

theorem renamed_of_ne {inside : Bool} {n : String} (h : n ≠ x) : renamed x y inside n = n := by
  cases inside with
  | false => rfl
  | true => exact renameName_of_ne h

/-- A name stays as it is, unless it is the old one and stands where that is renamed. -/
theorem renamed_eq_or (x y : String) (inside : Bool) (n : String) :
    renamed x y inside n = n ∨ n = x ∧ inside = true ∧ renamed x y inside n = y := by
  cases inside with
  | false => exact .inl rfl
  | true =>
    by_cases h : n = x
    · exact .inr ⟨h, rfl, if_pos h⟩
    · exact .inl (if_neg h)

namespace Bindings

variable {α : Type}

/-- The bindings with `y` in place of `x`. -/
def rename (x y : String) (b : Bindings α) : Bindings α :=
  ⟨b.entries.map fun e => (renameName x y e.1, e.2)⟩

/-- A renamed name stands for what the name stood for, as the new name was free. -/
theorem get?_rename {b : Bindings α} {n : String} (hb : y ∉ b.names) (hn : n ≠ y) :
    (b.rename x y).get? (renameName x y n) = b.get? n := by
  obtain ⟨entries⟩ := b
  simp only [rename, get?]
  induction entries with
  | nil => rfl
  | cons e rest ih =>
    obtain ⟨hm, hrest⟩ := not_or.mp (mt List.mem_cons.mpr hb)
    simp only [List.map_cons, findEntry, renameName_inj hn (Ne.symm hm), ih hrest]

/-- Setting a renamed name is renaming after setting the name. -/
theorem rename_set {b : Bindings α} {n : String} (v : α) (hb : y ∉ b.names) (hn : n ≠ y) :
    (b.set n v).rename x y = (b.rename x y).set (renameName x y n) v := by
  obtain ⟨entries⟩ := b
  simp only [rename, set, mk.injEq]
  induction entries with
  | nil => rfl
  | cons e rest ih =>
    obtain ⟨hm, hrest⟩ := not_or.mp (mt List.mem_cons.mpr hb)
    simp only [List.map_cons, setEntry, renameName_inj hn (Ne.symm hm)]
    split
    · rfl
    · rw [List.map_cons, ih hrest]

/-- Renaming the names of the entries is renaming the bindings. -/
theorem rename_ofList {entries : List (String × α)} (h : y ∉ entries.map Prod.fst) :
    (ofList entries).rename x y = ofList (entries.map fun e => (renameName x y e.1, e.2)) := by
  have fold : ∀ (rest : List (String × α)) (b : Bindings α), y ∉ b.names →
      y ∉ rest.map Prod.fst → (rest.foldl (fun b e => b.set e.1 e.2) b).rename x y =
        (rest.map fun e => (renameName x y e.1, e.2)).foldl (fun b e => b.set e.1 e.2)
          (b.rename x y) := by
    intro rest
    induction rest with
    | nil => exact fun _ _ _ => rfl
    | cons e rest ih =>
      intro b hb hrest
      obtain ⟨he, hrest⟩ := not_or.mp (mt List.mem_cons.mpr hrest)
      have hset : y ∉ (b.set e.1 e.2).names := fun hy => (mem_names_set.mp hy).elim he hb
      rw [List.foldl_cons, ih _ hset hrest, rename_set e.2 hb (Ne.symm he)]
      rfl
  exact fold entries empty List.not_mem_nil h

variable {params : List String} {args : List α} (hargs : args.length = params.length)
include hargs

/-- The frame of a call binds its parameters. -/
theorem mem_names_zip {n : String} : n ∈ (ofList (params.zip args)).names ↔ n ∈ params := by
  rw [mem_names_ofList, List.map_fst_zip (Nat.le_of_eq hargs.symm)]

/-- Arguments under renamed parameters. -/
theorem rename_zip (hy : y ∉ params) :
    (ofList (params.zip args)).rename x y =
      ofList ((params.map (renameName x y)).zip args) := by
  rw [rename_ofList (by rwa [List.map_fst_zip (Nat.le_of_eq hargs.symm)]), List.zip_map_left]
  rfl

end Bindings

/-! ## Texts and errors -/

/-- The texts are the same but for some places where the first one shows `x` and the second one
`y`. -/
inductive TextRenamed (x y : String) : String → String → Prop
  | refl (text : String) : TextRenamed x y text text
  | name : TextRenamed x y x y
  | append {a a' b b' : String} (h : TextRenamed x y a a') (h' : TextRenamed x y b b') :
      TextRenamed x y (a ++ b) (a' ++ b')

/-- A text in front changes nothing about where names are renamed. -/
theorem TextRenamed.after {a a' : String} (front : String) (h : TextRenamed x y a a') :
    TextRenamed x y (front ++ a) (front ++ a') :=
  (TextRenamed.refl front).append h

theorem TextRenamed.before {a a' : String} (back : String) (h : TextRenamed x y a a') :
    TextRenamed x y (a ++ back) (a' ++ back) :=
  h.append (.refl back)

/-- The characters that neither name has are the same. -/
theorem TextRenamed.filter_eq {keep : Char → Bool} (hx : x.toList.filter keep = [])
    (hy : y.toList.filter keep = []) {a a' : String} (h : TextRenamed x y a a') :
    a'.toList.filter keep = a.toList.filter keep := by
  induction h with
  | refl => rfl
  | name => rw [hx, hy]
  | append _ _ ih ih' =>
    rw [String.toList_append, String.toList_append, List.filter_append, List.filter_append, ih, ih']

/-- A name by itself is a text in which it is renamed. -/
theorem textRenamed_renameName (n : String) : TextRenamed x y n (renameName x y n) := by
  unfold renameName
  split
  · rename_i h
    rw [h]
    exact .name
  · exact .refl n

/-- The functions have the same name, and the same parameters but for `x` and `y`. -/
def Closure.ParamsRenamed (x y : String) (c c' : Closure) : Prop :=
  c'.name = c.name ∧ (c'.params = c.params ∨ c'.params = c.params.map (renameName x y))

/-- What is shown of functions with renamed parameters differs in the renamed names only. -/
theorem Closure.ParamsRenamed.shown {c c' : Closure} (h : c.ParamsRenamed x y c') :
    TextRenamed x y c.shown c'.shown := by
  obtain ⟨hname, hparams⟩ := h
  have hall : List.Forall₂ (TextRenamed x y) c.params c'.params := by
    rcases hparams with heq | heq
    · rw [heq]
      exact List.forall₂_same.mpr fun n _ => .refl n
    · rw [heq, List.forall₂_map_right_iff]
      exact List.forall₂_same.mpr fun n _ => textRenamed_renameName n
  unfold Closure.shown
  rw [hname]
  exact (.before ")>" (.after _ (intercalate_of_append .refl .append ", " hall)))

/-- The errors are the same but for `x` and `y`. -/
inductive EvalError.Renamed (x y : String) : EvalError → EvalError → Prop
  | refl (e : EvalError) : Renamed x y e e
  | undefinedVariable : Renamed x y (.undefinedVariable x) (.undefinedVariable y)
  | unknownFunction : Renamed x y (.unknownFunction x) (.unknownFunction y)
  | arityMismatch (expected got : Nat) (variadic : Bool) :
      Renamed x y (.arityMismatch x expected got variadic) (.arityMismatch y expected got variadic)
  | functionAsNumber {c c' : Closure} (h : c.ParamsRenamed x y c') (place : String) :
      Renamed x y (.functionAsNumber c.shown c.name place)
        (.functionAsNumber c'.shown c'.name place)
  | functionAsResult {c c' : Closure} (h : c.ParamsRenamed x y c') :
      Renamed x y (.functionAsResult c.shown c.name) (.functionAsResult c'.shown c'.name)

/-- The messages of errors with renamed names differ in the renamed names only. -/
theorem EvalError.Renamed.message {e e' : EvalError} (h : e.Renamed x y e') :
    TextRenamed x y e.message e'.message := by
  cases h with
  | refl => exact .refl _
  | undefinedVariable => exact .after "Undefined variable: " .name
  | unknownFunction => exact .after "Unknown function: " .name
  | arityMismatch expected got variadic =>
    exact ((((TextRenamed.name.before _).before _).before _).before _).before _
  | functionAsNumber h place => exact (((h.shown.after _).before _).before _).before _
  | functionAsResult h => exact (h.shown.after _).before _

/-- The faults are the same but for `x` and `y`, and so are their texts. Only where `x` is empty, a
call by it may be reported under the name of the function. -/
inductive Fault.Renamed (x y : String) : Fault → Fault → Prop
  | refl (e : Fault) : Renamed x y e e
  | eval {e e' : EvalError} (h : e.Renamed x y e') (htext : TextRenamed x y e.message e'.message) :
      Renamed x y (.eval e) (.eval e')
  | unnamed (hx : x = "") (name : Option String) (expected got : Nat) :
      Renamed x y (.eval (.arityMismatch (Closure.labelOr "lambda" name) expected got false))
        (.eval (.arityMismatch y expected got false))

theorem EvalError.Renamed.fault {e e' : EvalError} (h : e.Renamed x y e') :
    Fault.Renamed x y (.eval e) (.eval e') :=
  .eval h h.message

/-- Both results are the same value, or faults that are the same but for `x` and `y`. -/
inductive ResultRenamed (x y : String) : Except Fault Float → Except Fault Float → Prop
  | ok (v : Float) : ResultRenamed x y (.ok v) (.ok v)
  | error {e e' : Fault} (h : e.Renamed x y e') : ResultRenamed x y (.error e) (.error e')

/-! ## Frames -/

/-- What has become of the frame at a place. In the world stands whether `x` is the renamed
parameter for what is evaluated in the frame. -/
inductive RenamedFrames (x y : String) (w : List Bool) : FrameId → Frame → Frame → Prop
  | root (hw : w[Store.root]? = some false) (b : Bindings Value) :
      RenamedFrames x y w Store.root ⟨b, none⟩ ⟨b, none⟩
  | kept {f p : FrameId} {inside : Bool} {b : Bindings Value} (hf : f ≠ Store.root)
      (hp : w[p]? = some inside) (hw : w[f]? = some (inside && x ∉ b.names)) (hy : y ∉ b.names) :
      RenamedFrames x y w f ⟨b, some p⟩ ⟨b, some p⟩
  | changed {f p : FrameId} {inside : Bool} {b : Bindings Value} (hf : f ≠ Store.root)
      (hp : w[p]? = some inside) (hw : w[f]? = some true) (hx : x ∈ b.names) (hy : y ∉ b.names) :
      RenamedFrames x y w f ⟨b, some p⟩ ⟨b.rename x y, some p⟩

/-- The root frame is never inside the function, and is the same in both runs. -/
theorem RenamedFrames.of_root {w : List Bool} {frame frame' : Frame}
    (h : RenamedFrames x y w Store.root frame frame') :
    w[Store.root]? = some false ∧ frame.parent = none ∧ frame' = frame := by
  generalize hroot : Store.root = f at h
  cases h with
  | root hw => exact ⟨hw, rfl, rfl⟩
  | kept hf => exact absurd hroot.symm hf
  | changed hf => exact absurd hroot.symm hf

/-- The functions are made in the same frame and have the same name, and their source is renamed as
it is seen from there. -/
structure RenamedClosures (x y : String) (w : List Bool) (c c' : Closure) : Prop where
  frame : c'.frame = c.frame
  name : c'.name = c.name
  source : ∃ inside, w[c.frame]? = some inside ∧
    Expr.Renames x y inside (.lambda c.params c.body) (.lambda c'.params c'.body)

/-- The run of a program in which a parameter `x` is renamed to `y`. -/
def paramRenaming (x y : String) : Simulation (List Bool) where
  later w w' := w <+: w'
  sized w n := w.length = n ∧ w[Store.root]? = some false
  frames := RenamedFrames x y
  closures := RenamedClosures x y
  names w f n n' := ∃ inside, w[f]? = some inside ∧ n ≠ y ∧ n' = renamed x y inside n
  exprs w f e e' := ∃ inside, w[f]? = some inside ∧ e.Renames x y inside e'
  faults := Fault.Renamed x y
  target _ := True

/-! ## Looking names up -/

section Lookup

variable {w : List Bool} {f p : FrameId} {frame frame' : Frame} {n : String} {inside : Bool}

/-- Frames that correspond hang off the same frame. -/
theorem RenamedFrames.parent (h : RenamedFrames x y w f frame frame') :
    frame'.parent = frame.parent := by
  cases h <;> rfl

/-- What the frame binds `x` or `y` to is looked up under the name that it has there. -/
theorem RenamedFrames.get?_eq (h : RenamedFrames x y w f frame frame')
    (hw : w[f]? = some inside) (hn : n ≠ y) :
    frame'.bindings.get? (renamed x y inside n) = frame.bindings.get? n := by
  cases h with
  | root hw' b =>
    cases hw'.symm.trans hw
    rfl
  | @kept _ p above b _ _ hw' hy =>
    cases hw'.symm.trans hw
    rcases renamed_eq_or x y (above && x ∉ b.names) n with heq | ⟨rfl, hinside, heq⟩
    · rw [heq]
    · have hx : n ∉ b.names := of_decide_eq_true (Bool.and_eq_true_iff.mp hinside).2
      rw [heq, Bindings.get?_eq_none_iff.mpr hx, Bindings.get?_eq_none_iff.mpr hy]
  | changed _ _ hw' _ hy =>
    cases hw'.symm.trans hw
    exact Bindings.get?_rename hy hn

/-- From a frame to the one above it only names that the frame binds change. -/
theorem RenamedFrames.above (h : RenamedFrames x y w f frame frame') (hw : w[f]? = some inside)
    (hp : frame.parent = some p) (hn : frame.bindings.get? n = none) :
    ∃ above, w[p]? = some above ∧ renamed x y inside n = renamed x y above n := by
  have hfree := Bindings.get?_eq_none_iff.mp hn
  cases h with
  | root => cases hp
  | @kept _ _ above b _ hwp hw' _ =>
    cases hp
    cases hw'.symm.trans hw
    refine ⟨above, hwp, ?_⟩
    by_cases hx : x ∈ b.names
    · have hne : n ≠ x := fun heq => hfree (heq ▸ hx)
      rw [renamed_of_ne hne, renamed_of_ne hne]
    · rw [decide_eq_true hx, Bool.and_true]
  | @changed _ _ above b _ hwp _ hx _ =>
    cases hp
    have hne : n ≠ x := fun heq => hfree (heq ▸ hx)
    exact ⟨above, hwp, by rw [renamed_of_ne hne, renamed_of_ne hne]⟩

end Lookup

/-! ## Calls -/

/-- How a function inside a renamed expression is renamed: its parameters stay unless one of them is
the renamed one. -/
theorem Expr.Renames.of_lambda {inside : Bool} {params params' : List String} {body body' : Expr}
    (h : Renames x y inside (.lambda params body) (.lambda params' body')) :
    y ∉ params ∧
      (params' = params ∧ Renames x y (inside && x ∉ params) body body' ∨
        params' = params.map (renameName x y) ∧ x ∈ params ∧ Renames x y true body body') := by
  cases h with
  | kept hy h => exact ⟨hy, .inl ⟨rfl, h⟩⟩
  | renamed hy hx h => exact ⟨hy, .inr ⟨rfl, hx, h⟩⟩

namespace RenamedClosures

variable {w w' : List Bool} {c c' : Closure}

/-- Functions still correspond when more frames have been opened. -/
theorem later (h : RenamedClosures x y w c c') (hw : w <+: w') : RenamedClosures x y w' c c' := by
  obtain ⟨inside, hframe, hsource⟩ := h.source
  exact ⟨h.frame, h.name, inside, getElem?_later hw hframe, hsource⟩

/-- Functions that correspond have the same parameters, up to the renamed one. -/
theorem params (h : RenamedClosures x y w c c') : c.ParamsRenamed x y c' := by
  obtain ⟨inside, -, hsource⟩ := h.source
  exact ⟨h.name, hsource.of_lambda.2.imp (fun h => h.1) fun h => h.1⟩

/-- A call opens a frame in which the parameters have the names that they have in the list. -/
theorem opened (h : RenamedClosures x y w c c') {args : List Value} (hargs : args.length = c.arity)
    (hroot : w[Store.root]? = some false) :
    ∃ inside, RenamedFrames x y (w ++ [inside]) w.length
        ⟨.ofList (c.params.zip args), some c.frame⟩ ⟨.ofList (c'.params.zip args), some c'.frame⟩ ∧
      Expr.Renames x y inside c.body c'.body := by
  obtain ⟨above, hframe, hsource⟩ := h.source
  obtain ⟨hy, hbody⟩ := hsource.of_lambda
  have hmem : ∀ {n}, n ∈ (Bindings.ofList (c.params.zip args)).names ↔ n ∈ c.params :=
    Bindings.mem_names_zip hargs
  have hfresh : y ∉ (Bindings.ofList (c.params.zip args)).names := mt hmem.mp hy
  have hlater : ∀ inside, (w ++ [inside])[c.frame]? = some above := fun inside =>
    getElem?_later (List.prefix_append w [inside]) hframe
  have hlast : ∀ inside : Bool, (w ++ [inside])[w.length]? = some inside := fun inside =>
    List.getElem?_concat_length
  have hnew : w.length ≠ Store.root := by
    intro hnil
    rw [List.eq_nil_of_length_eq_zero hnil] at hroot
    cases hroot
  rw [h.frame]
  rcases hbody with ⟨hparams, hbody⟩ | ⟨hparams, hx, hbody⟩
  · refine ⟨_, ?_, hbody⟩
    rw [hparams]
    refine .kept hnew (hlater _) ?_ hfresh
    simp only [hlast, hmem]
  · refine ⟨true, ?_, hbody⟩
    rw [hparams, ← Bindings.rename_zip hargs hy]
    exact .changed hnew (hlater _) (hlast true) (hmem.mpr hx) hfresh

end RenamedClosures

/-! ## The simulation -/

/-- Errors that show a name show the renamed one. -/
theorem renamed_of_name {error : String → EvalError}
    (h : EvalError.Renamed x y (error x) (error y)) (inside : Bool) (n : String) :
    Fault.Renamed x y (.eval (error n)) (.eval (error (renamed x y inside n))) := by
  rcases renamed_eq_or x y inside n with heq | ⟨rfl, -, heq⟩
  · rw [heq]
    exact .refl _
  · rw [heq]
    exact h.fault

/-- With a wrong number of arguments the call fails under the name by which the function is called,
unless that name is empty. -/
theorem renamed_of_arity {c c' : Closure} (hname : c'.name = c.name) (hy : y ≠ "")
    (inside : Bool) (n : String) (expected got : Nat) :
    Fault.Renamed x y (.eval (.arityMismatch (c.label (some n)) expected got false))
      (.eval (.arityMismatch (c'.label (some (renamed x y inside n))) expected got false)) := by
  have hlabel : ∀ (closure : Closure) {name : String}, name ≠ "" →
      closure.label (some name) = name := fun _ _ h => if_neg (by rwa [String.isEmpty_iff])
  rcases renamed_eq_or x y inside n with heq | ⟨rfl, -, heq⟩
  · have hsame : c'.label = c.label := by
      unfold Closure.label
      rw [hname]
    rw [heq, hsame]
    exact .refl _
  · rw [heq, hlabel c' hy]
    by_cases hx : n = ""
    · have hown : c.label (some n) = Closure.labelOr "lambda" c.name :=
        if_pos (by rwa [String.isEmpty_iff])
      rw [hown]
      exact .unnamed hx c.name expected got
    · rw [hlabel c hx]
      exact (EvalError.Renamed.arityMismatch expected got false).fault

/-- A renamed name is the same, or both names are free. -/
theorem sameOrFree_renamed (hx : reservedKind? x = none) (hy : reservedKind? y = none)
    (inside : Bool) (n : String) : SameOrFree n (renamed x y inside n) := by
  rcases renamed_eq_or x y inside n with heq | ⟨rfl, -, heq⟩
  · exact .inl heq
  · exact .inr ⟨hx, by rwa [heq]⟩

theorem Closure.ParamsRenamed.sameOrFree {c c' : Closure} (h : c.ParamsRenamed x y c')
    (hx : reservedKind? x = none) (hy : reservedKind? y = none) :
    List.Forall₂ SameOrFree c.params c'.params := by
  rcases h.2 with heq | heq
  · rw [heq]
    exact List.forall₂_same.mpr fun n _ => .inl rfl
  · rw [heq, List.forall₂_map_right_iff]
    exact List.forall₂_same.mpr fun n _ => sameOrFree_renamed hx hy true n

/-- Renamed expressions match: their parts correspond, and so do the functions made of them. -/
theorem Expr.Renames.matches {w : List Bool} {f : FrameId} {inside : Bool} {e e' : Expr}
    (hw : w[f]? = some inside) (h : e.Renames x y inside e') :
    Expr.Matches ((paramRenaming x y).names w f) ((paramRenaming x y).exprs w f)
      (fun params body params' body' =>
        RenamedClosures x y w ⟨params, body, f, none⟩ ⟨params', body', f, none⟩) e e' := by
  cases h with
  | number v => exact .number v
  | var hn => exact .var ⟨inside, hw, hn, rfl⟩
  | unary h => exact .unary ⟨inside, hw, h⟩
  | binary h₁ h₂ => exact .binary ⟨inside, hw, h₁⟩ ⟨inside, hw, h₂⟩
  | conditional hc ht he => exact .conditional ⟨inside, hw, hc⟩ ⟨inside, hw, ht⟩ ⟨inside, hw, he⟩
  | call hn hargs =>
    exact .call ⟨inside, hw, hn, rfl⟩ (hargs.forall₂.imp fun _ _ h => ⟨inside, hw, h⟩)
  | kept hy h => exact .lambda ⟨rfl, rfl, inside, hw, .kept hy h⟩
  | renamed hy hx h => exact .lambda ⟨rfl, rfl, inside, hw, .renamed hy hx h⟩

/-- The renaming of a parameter is a correspondence that every step keeps. -/
theorem paramRenaming_lawful (hx : reservedKind? x = none) (hy : reservedKind? y = none)
    (hident : y ≠ "") : (paramRenaming x y).Lawful where
  refl _ := List.prefix_rfl
  trans := List.IsPrefix.trans
  frames_later hw h := by
    cases h with
    | root hroot b => exact .root (getElem?_later hw hroot) b
    | kept hf hp hg hy => exact .kept hf (getElem?_later hw hp) (getElem?_later hw hg) hy
    | changed hf hp hg hx hy =>
      exact .changed hf (getElem?_later hw hp) (getElem?_later hw hg) hx hy
  closures_later hw h := h.later hw
  names_later hw := fun ⟨inside, hf, hn⟩ => ⟨inside, getElem?_later hw hf, hn⟩
  exprs_later hw := fun ⟨inside, hf, he⟩ => ⟨inside, getElem?_later hw hf, he⟩
  missing hw := ⟨rfl, rfl, false, hw.2, .kept List.not_mem_nil (.number 0)⟩
  expr := fun ⟨_, hw, h⟩ => h.matches hw
  free := fun ⟨inside, _, _, heq⟩ => heq ▸ sameOrFree_renamed hx hy inside _
  get? h := fun ⟨_, hw, hn, heq⟩ => heq ▸ h.get?_eq hw hn
  parent h := h.parent
  above h hp hn := fun ⟨inside, hw, hne, heq⟩ => by
    obtain ⟨above, hwp, hsame⟩ := h.above hw hp hn
    exact ⟨above, hwp, hne, heq.trans hsame⟩
  params h := h.params.sameOrFree hx hy
  closure_name h := h.name
  named name h := ⟨h.frame, rfl, h.source⟩
  opened {w c c' n args} h hargs hw := by
    obtain ⟨rfl, hroot⟩ := hw
    obtain ⟨inside, hframe, hbody⟩ := h.opened hargs hroot
    -- The new frame is inside the function if the call is one of it, or if the frame in which the
    -- function was made is.
    have hlater : w <+: w ++ [inside] := List.prefix_append w [inside]
    have hlast : (w ++ [inside])[w.length]? = some inside := List.getElem?_concat_length
    exact ⟨w ++ [inside], hlater, ⟨List.length_append, getElem?_later hlater hroot⟩, hframe,
      inside, hlast, hbody⟩
  -- Names are bound in the root frame only, where nothing is renamed.
  bind v _ h := by
    obtain ⟨hw, hparent, rfl⟩ := h.of_root
    rw [hparent]
    exact .root hw _
  faults_refl := .refl
  undefinedVariable := fun ⟨inside, _, _, heq⟩ =>
    heq ▸ renamed_of_name EvalError.Renamed.undefinedVariable inside _
  unknownFunction := fun ⟨inside, _, _, heq⟩ =>
    heq ▸ renamed_of_name EvalError.Renamed.unknownFunction inside _
  arityMismatch expected got h := fun ⟨inside, _, _, heq⟩ =>
    heq ▸ renamed_of_arity h.name hident inside _ expected got
  notNumber place h := (EvalError.Renamed.functionAsNumber h.params place).fault
  asResult h := (EvalError.Renamed.functionAsResult h.params).fault

/-! ## Programs -/

/-- A statement that does not mention the new name is renamed to itself. -/
theorem Stmt.renames_self (stmt : Stmt) (hy : y ∉ stmt.names) :
    (paramRenaming x y).Stmts [false] Store.root stmt stmt := by
  cases stmt with
  | assign name e =>
    rw [names, List.mem_cons, not_or] at hy
    exact .assign trivial ⟨false, rfl, Expr.renames_self e hy.2⟩
  | expr e => exact .expr ⟨false, rfl, Expr.renames_self e hy⟩

theorem Stmt.RenamesParam.renames {stmt stmt' : Stmt} (h : stmt.RenamesParam x y stmt')
    (hy : y ∉ stmt.names) : (paramRenaming x y).Stmts [false] Store.root stmt stmt' := by
  cases h with
  | assign h =>
    rw [Stmt.names, List.mem_cons, not_or] at hy
    exact .assign trivial ⟨false, rfl, h.renames hy.2⟩
  | expr h => exact .expr ⟨false, rfl, h.renames hy⟩

/-- In a renamed program, the statements correspond one by one. -/
theorem Program.RenamesParam.renames {p p' : Program} (h : p.RenamesParam x y p')
    (hy : y ∉ p.names) : List.Forall₂ ((paramRenaming x y).Stmts [false] Store.root)
      p.statements p'.statements := by
  obtain ⟨hstmt⟩ := h
  have hself : ∀ {stmts : List Stmt}, y ∉ stmts.flatMap Stmt.names →
      List.Forall₂ ((paramRenaming x y).Stmts [false] Store.root) stmts stmts := fun h =>
    List.forall₂_same.mpr fun stmt hmem => stmt.renames_self fun hin =>
      h (List.mem_flatMap.mpr ⟨stmt, hmem, hin⟩)
  rw [Program.names, List.flatMap_append, List.flatMap_cons, List.mem_append, List.mem_append,
    not_or, not_or] at hy
  exact List.rel_append (hself hy.1) (.cons (hstmt.renames hy.2.1) (hself hy.2.2))

theorem paramRenaming_initial :
    (paramRenaming x y).Stores [false] Store.initial Store.initial where
  sized := ⟨rfl, rfl⟩
  frames_size := rfl
  frame {g frame frame'} hg hg' := by
    match g, hg, hg' with
    | 0, rfl, rfl => exact .root rfl .empty
    | _ + 1, hg, _ => cases hg
  closures_size := rfl
  closure hc _ := by cases hc

/-- The root frames of stores that correspond bind the same. -/
theorem bindings_root_of_renaming {w : List Bool} {s t : Store}
    (h : (paramRenaming x y).Stores w s t) : t.bindings Store.root = s.bindings Store.root := by
  have hsize : Store.root < s.frames.size := by
    rw [← h.sized.1]
    exact (List.getElem?_eq_some_iff.mp h.sized.2).1
  rw [Store.bindings, (h.frame_at hsize).of_root.2.2]
  rfl

/-- A program in which a parameter that is not reserved gets a name that is not reserved either and
does not occur in the program: both have the same value, or fail with the same error, whose text
shows `x` where the other one shows `y`; both print the same, and leave the same root bindings. Only
where `x` is empty, an error about the number of arguments of a call by `x` shows the name that the
function was given instead. -/
theorem Settings.evalProgram_renamesParam (set : Settings) {x y : String} {p p' : Program}
    (h : p.RenamesParam x y p') (hx : reservedKind? x = none) (hy : reservedKind? y = none)
    (hident : y ≠ "") (hnew : y ∉ p.names) :
    let outcome := (set.evalProgram Store.root p).start Store.initial
    let outcome' := (set.evalProgram Store.root p').start Store.initial
    ResultRenamed x y outcome.result outcome'.result ∧
      printedTexts outcome'.log = printedTexts outcome.log ∧
      outcome'.store.bindings Store.root = outcome.store.bindings Store.root := by
  intro outcome outcome'
  have hruns := Settings.evalProgram_simulates (paramRenaming_lawful hx hy hident) set
    (h.renames hnew)
  obtain ⟨w, hstores, hprinted, hresult⟩ := hruns.start paramRenaming_initial
  refine ⟨?_, hprinted, bindings_root_of_renaming hstores⟩
  rcases hresult with ⟨v, hv, hv'⟩ | ⟨e, e', he, hfault, hfault'⟩
  · simp only [outcome, outcome', hv, hv']
    exact .ok v
  · simp only [outcome, outcome', hfault, hfault']
    exact .error he

/-- A parameter that is a function is called in a function that outlives the call. -/
theorem Settings.evalProgram_renamesParam_twice :
    let set : Settings := ⟨false, false, 8⟩
    let twice : String → Stmt := fun f =>
      .assign "twice" (.lambda [f] (.lambda ["n"] (.call f [.call f [.var "n"]])))
    let rest : List Stmt :=
      [.assign "double" (.lambda ["n"] (.binary .add (.var "n") (.var "n"))),
        .assign "g" (.call "twice" [.var "double"]), .expr (.call "g" [.number 5])]
    let p : String → Program := fun f => ⟨twice f :: rest⟩
    (p "f").RenamesParam "f" "k" (p "k") ∧ reservedKind? "f" = none ∧ reservedKind? "k" = none ∧
      "k" ∉ (p "f").names ∧
      ((set.evalProgram Store.root (p "k")).start Store.initial).result = .ok (20 : Float) ∧
      ResultRenamed "f" "k" ((set.evalProgram Store.root (p "f")).start Store.initial).result
        ((set.evalProgram Store.root (p "k")).start Store.initial).result := by
  intro set twice rest p
  have hrename : (twice "f").RenamesParam "f" "k" (twice "k") := by
    have hhere := @Expr.RenamesParam.here "f" "k" ["f"]
      (.lambda ["n"] (.call "f" [.call "f" [.var "n"]])) (List.mem_singleton_self "f")
    exact .assign (by simpa [Expr.rename, Expr.renameList, renameName] using hhere)
  have hp : (p "f").RenamesParam "f" "k" (p "k") :=
    @Program.RenamesParam.intro "f" "k" [] rest _ _ hrename
  have hfree : reservedKind? "f" = none := by decide +kernel
  have hfree' : reservedKind? "k" = none := by decide +kernel
  have hnew : "k" ∉ (p "f").names := by decide +kernel
  have hsame := Settings.evalProgram_renamesParam set hp hfree hfree' (by decide) hnew
  exact ⟨hp, hfree, hfree', hnew, by decide +kernel, hsame.1⟩

/-- A function called by an empty name is reported under its own name, and under the new name of the
parameter once that is renamed. -/
theorem Settings.evalProgram_renamesParam_empty :
    let set : Settings := ⟨false, false, 8⟩
    let p : String → Program := fun f =>
      ⟨[.assign "id" (.lambda ["a"] (.var "a")), .assign "h" (.lambda [f] (.call f [])),
        .expr (.call "h" [.var "id"])]⟩
    let result : String → Except Fault Float := fun f =>
      ((set.evalProgram Store.root (p f)).start Store.initial).result
    (p "").RenamesParam "" "y" (p "y") ∧ reservedKind? "" = none ∧ reservedKind? "y" = none ∧
      "y" ∉ (p "").names ∧
      ∃ e e', result "" = .error (.eval e) ∧ result "y" = .error (.eval e') ∧
        e.message = "id() expects 1 argument(s), got 0" ∧
        e'.message = "y() expects 1 argument(s), got 0" ∧
        ¬ TextRenamed "" "y" e.message e'.message := by
  intro set p result
  have hrename : (Expr.lambda [""] (.call "" [])).RenamesParam "" "y"
      (.lambda ["y"] (.call "y" [])) := by
    have hhere := @Expr.RenamesParam.here "" "y" [""] (.call "" []) (List.mem_singleton_self "")
    simpa [Expr.rename, Expr.renameList, renameName] using hhere
  have hp : (p "").RenamesParam "" "y" (p "y") :=
    @Program.RenamesParam.intro "" "y" [.assign "id" (.lambda ["a"] (.var "a"))]
      [.expr (.call "h" [.var "id"])] _ _ (.assign hrename)
  refine ⟨hp, by decide +kernel, by decide +kernel, by decide +kernel,
    .arityMismatch "id" 1 0 false, .arityMismatch "y" 1 0 false, by decide +kernel,
    by decide +kernel, by decide +kernel, by decide +kernel, fun h => ?_⟩
  have hfilter := @TextRenamed.filter_eq "" "y" (· != 'y') (by decide +kernel) (by decide +kernel)
    _ _ h
  exact absurd hfilter (by decide +kernel)

end Abacus
