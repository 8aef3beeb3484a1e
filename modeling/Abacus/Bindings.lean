/-!
# Ordered bindings

A finite list of names with their values, in the order in which the names first came up. Setting a
name again replaces its value and keeps its place. The functions on entries are for keys of any
type, as the keys of documents are no strings.

* `get?_set`: what a name stands for after a `set`.
* `names_set`: only a new name changes the names, and then it comes last.
* `get?_eq_none_iff` and `mem_names_ofList`: which names are bound.
* `entries_ofList`: bindings made from entries with different names have just these entries.
-/

namespace Abacus

/-- Names with their values, oldest name first. -/
structure Bindings (α : Type) where
  entries : List (String × α)
deriving Repr, DecidableEq

namespace Bindings

variable {κ α : Type} [DecidableEq κ]

/-- No bindings at all. -/
def empty : Bindings α := ⟨[]⟩

instance : Inhabited (Bindings α) := ⟨empty⟩

/-- The names, oldest first. -/
def names (b : Bindings α) : List String := b.entries.map Prod.fst

/-- The value of the first entry of a key. -/
def findEntry (key : κ) : List (κ × α) → Option α
  | [] => none
  | (k, v) :: rest => if key = k then some v else findEntry key rest

/-- The value of a name. -/
def get? (b : Bindings α) (name : String) : Option α := findEntry name b.entries

/-- Whether the name has a value. -/
def contains (b : Bindings α) (name : String) : Bool := (b.get? name).isSome

/-- Replaces the value of a key that is there, else adds the key at the end. -/
def setEntry (key : κ) (value : α) : List (κ × α) → List (κ × α)
  | [] => [(key, value)]
  | (k, v) :: rest => if key = k then (k, value) :: rest else (k, v) :: setEntry key value rest

/-- The entries that giving each key its value in turn leaves: of a repeated key the first place
and the last value. -/
def setEntries (entries : List (κ × α)) : List (κ × α) :=
  entries.foldl (fun es e => setEntry e.1 e.2 es) []

/-- The bindings after `name` was given `value`. -/
def set (b : Bindings α) (name : String) (value : α) : Bindings α :=
  ⟨setEntry name value b.entries⟩

/-- The bindings that giving each name its value in turn leaves: of a repeated name the first
place and the last value. -/
def ofList (entries : List (String × α)) : Bindings α :=
  entries.foldl (fun b e => b.set e.1 e.2) empty

@[simp] theorem names_empty : (empty : Bindings α).names = [] := rfl

@[simp] theorem get?_empty (name : String) : (empty : Bindings α).get? name = none := rfl

theorem get?_set (b : Bindings α) (name other : String) (value : α) :
    (b.set name value).get? other = if other = name then some value else b.get? other := by
  obtain ⟨entries⟩ := b
  simp only [set, get?]
  induction entries with
  | nil => simp [setEntry, findEntry]
  | cons e rest ih =>
    obtain ⟨n, v⟩ := e
    by_cases hn : name = n
    · by_cases h : other = name <;> simp_all [setEntry, findEntry]
    · by_cases h : other = n <;> simp_all [setEntry, findEntry, Ne.symm hn]

theorem names_set (b : Bindings α) (name : String) (value : α) :
    (b.set name value).names = if name ∈ b.names then b.names else b.names ++ [name] := by
  obtain ⟨entries⟩ := b
  simp only [set, names]
  induction entries with
  | nil => simp [setEntry]
  | cons e rest ih =>
    obtain ⟨n, v⟩ := e
    by_cases hn : name = n
    · simp [setEntry, hn]
    · by_cases h : name ∈ rest.map Prod.fst
      · simp [setEntry, hn, ih, h]
      · simp [setEntry, hn, ih, h]

/-- The names without a value are those that are not bound. -/
theorem get?_eq_none_iff {b : Bindings α} {name : String} :
    b.get? name = none ↔ name ∉ b.names := by
  obtain ⟨entries⟩ := b
  simp only [get?, names]
  induction entries with
  | nil => simp [findEntry]
  | cons e rest ih =>
    obtain ⟨n, v⟩ := e
    by_cases hn : name = n
    · simp [findEntry, hn]
    · simp [findEntry, hn, ih]

theorem mem_names_set {b : Bindings α} {name other : String} {value : α} :
    other ∈ (b.set name value).names ↔ other = name ∨ other ∈ b.names := by
  rw [names_set]
  split
  · rename_i h
    exact ⟨.inr, fun hother => hother.elim (fun heq => heq ▸ h) id⟩
  · rw [List.mem_append, List.mem_singleton, or_comm]

/-- Bindings made from entries bind the names of the entries. -/
theorem mem_names_ofList {entries : List (String × α)} {name : String} :
    name ∈ (ofList entries).names ↔ name ∈ entries.map Prod.fst := by
  have fold : ∀ (rest : List (String × α)) (b : Bindings α),
      name ∈ (rest.foldl (fun b e => b.set e.1 e.2) b).names ↔
        name ∈ b.names ∨ name ∈ rest.map Prod.fst := by
    intro rest
    induction rest with
    | nil => simp
    | cons e rest ih =>
      intro b
      rw [List.foldl_cons, ih, mem_names_set, List.map_cons, List.mem_cons, or_assoc, or_left_comm]
  exact (fold entries empty).trans (or_iff_right List.not_mem_nil)

theorem setEntry_of_notMem {key : κ} {value : α} {entries : List (κ × α)}
    (h : key ∉ entries.map Prod.fst) :
    setEntry key value entries = entries ++ [(key, value)] := by
  induction entries with
  | nil => rfl
  | cons e rest ih =>
    obtain ⟨k, v⟩ := e
    simp only [List.map_cons, List.mem_cons, not_or] at h
    simp [setEntry, h.1, ih h.2]

/-- Keys that differ keep their entries. -/
theorem setEntries_of_nodup {entries : List (κ × α)} (h : (entries.map Prod.fst).Nodup) :
    setEntries entries = entries := by
  -- What has been set already stands in front of the rest.
  have fold : ∀ rest done : List (κ × α), ((done ++ rest).map Prod.fst).Nodup →
      rest.foldl (fun es e => setEntry e.1 e.2 es) done = done ++ rest := by
    intro rest
    induction rest with
    | nil => simp
    | cons e rest ih =>
      intro done hnodup
      have hnew : e.1 ∉ done.map Prod.fst := fun hmem => by
        rw [List.map_append] at hnodup
        exact (List.nodup_append.mp hnodup).2.2 _ hmem _ List.mem_cons_self rfl
      rw [List.foldl_cons, setEntry_of_notMem hnew, ih, List.append_assoc, List.singleton_append]
      rwa [List.append_assoc, List.singleton_append]
  exact fold entries [] h

theorem entries_ofList_eq (entries : List (String × α)) :
    (ofList entries).entries = setEntries entries := by
  have fold : ∀ (rest : List (String × α)) (b : Bindings α),
      (rest.foldl (fun b e => b.set e.1 e.2) b).entries =
        rest.foldl (fun es e => setEntry e.1 e.2 es) b.entries := by
    intro rest
    induction rest with
    | nil => exact fun _ => rfl
    | cons e rest ih => exact fun b => ih (b.set e.1 e.2)
  exact fold entries empty

/-- Names that differ keep their entries. -/
theorem entries_ofList {entries : List (String × α)} (h : (entries.map Prod.fst).Nodup) :
    (ofList entries).entries = entries :=
  (entries_ofList_eq entries).trans (setEntries_of_nodup h)

end Bindings

end Abacus
