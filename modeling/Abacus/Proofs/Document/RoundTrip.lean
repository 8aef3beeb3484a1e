import Abacus.Proofs.Document.Numbers
import Abacus.Proofs.Document.Texts

/-!
# Documents are read back

Every document whose numbers are read back (`Readable`) is read back as it was from either of its
texts, on one line or on many (`read_write`).

The readers are described by what they find at the start of a text and what they leave (`IsValue`,
`AreItems`, `AreFields` and their parts), with one lemma for each way in which a reader goes on. The
induction is on the document, over all texts that may stand behind it.
-/

namespace Abacus.Document

/-! ## What readers find -/

/-- The value at the start of a text is `d`, and `rest` is left behind it. -/
def IsValue (cs : List Char) (d : Document) (rest : List Char) : Prop :=
  ∃ h, value cs = .ok ⟨d, rest, h⟩

/-- Behind an opening bracket stand the items `ds`, and `rest` is left behind the closing one. -/
def AreItems (cs : List Char) (ds : List Document) (rest : List Char) : Prop :=
  ∃ h, items cs = .ok ⟨ds, rest, h⟩

/-- The items `ds`, at least one, stand before a closing bracket, and `rest` is left behind it. -/
def AreMoreItems (cs : List Char) (ds : List Document) (rest : List Char) : Prop :=
  ∃ h, moreItems cs = .ok ⟨ds, rest, h⟩

/-- Behind an opening bracket stand the fields `fs`, and `rest` is left behind the closing one. -/
def AreFields (cs : List Char) (fs : List (List CodePoint × Document)) (rest : List Char) : Prop :=
  ∃ h, fields cs = .ok ⟨fs, rest, h⟩

/-- The fields `fs`, at least one, stand before a closing bracket, and `rest` is left behind it. -/
def AreMoreFields (cs : List Char) (fs : List (List CodePoint × Document)) (rest : List Char) :
    Prop :=
  ∃ h, moreFields cs = .ok ⟨fs, rest, h⟩

/-- The field at the start of a text is `f`, and `rest` is left behind it. -/
def IsField (cs : List Char) (f : List CodePoint × Document) (rest : List Char) : Prop :=
  ∃ h, field cs = .ok ⟨f, rest, h⟩

/-- The characters that start no word and no number. -/
def openers : List Char := ['"', '[', '\x7b', ']', ' ', '\t', '\n', '\r']

section Step

variable {cs rest rest₁ tail : List Char} {d : Document} {ds : List Document}
  {f : List CodePoint × Document} {fs : List (List CodePoint × Document)}

/-- A word or a number starts with a character of its own. -/
theorem IsScalar.head (h : IsScalar cs d rest) : ∃ c cs', cs = c :: cs' ∧ c ∉ openers := by
  obtain ⟨_, h⟩ := h
  cases cs with
  | nil => cases h
  | cons c cs =>
    refine ⟨c, cs, rfl, fun hc => ?_⟩
    simp only [openers, List.mem_cons, List.not_mem_nil, or_false] at hc
    obtain rfl | rfl | rfl | rfl | rfl | rfl | rfl | rfl := hc <;> cases h

/-- A text between quotation marks is a value. -/
theorem IsText.value {ps : List CodePoint} (h : IsText cs ps rest) :
    IsValue ('"' :: cs) (.text ps) rest := by
  obtain ⟨hlt, h⟩ := h
  refine ⟨Nat.lt_succ_of_lt hlt, ?_⟩
  rw [Document.value]
  simp [h]

theorem AreItems.value (h : AreItems cs ds rest) : IsValue ('[' :: cs) (.list ds) rest := by
  obtain ⟨hlt, h⟩ := h
  refine ⟨Nat.lt_succ_of_lt hlt, ?_⟩
  rw [Document.value]
  simp [h]

/-- Fields between braces are a value: an object in which each key stands once. -/
theorem AreFields.value (h : AreFields cs fs rest) :
    IsValue ('\x7b' :: cs) (.object (Bindings.setEntries fs)) rest := by
  obtain ⟨hlt, h⟩ := h
  refine ⟨Nat.lt_succ_of_lt hlt, ?_⟩
  rw [Document.value]
  simp [h]

/-- A word or a number is a value. -/
theorem IsScalar.value (h : IsScalar cs d rest) : IsValue cs d rest := by
  obtain ⟨c, cs, rfl, hc⟩ := h.head
  obtain ⟨hlt, h⟩ := h
  simp only [openers, List.mem_cons, not_or] at hc
  refine ⟨hlt, ?_⟩
  rw [Document.value]
  simp [hc, h]

theorem skipBlanks_cons {c : Char} (hc : c ∉ [' ', '\t', '\n', '\r']) (cs : List Char) :
    skipBlanks (c :: cs) = c :: cs := by
  simp only [List.mem_cons, List.not_mem_nil, or_false, not_or] at hc
  simp [skipBlanks, hc]

/-- A value starts neither with a blank nor with a closing bracket. -/
theorem IsValue.head (h : IsValue cs d rest) :
    ∃ c cs', cs = c :: cs' ∧ c ≠ ']' ∧ c ∉ [' ', '\t', '\n', '\r'] := by
  obtain ⟨hlt, h⟩ := h
  cases cs with
  | nil => exact absurd hlt (Nat.not_lt_zero _)
  | cons c cs =>
    refine ⟨c, cs, rfl, ?_⟩
    rw [Document.value] at h
    split_ifs at h with hquote hlist hobject
    · exact hquote ▸ by decide
    · exact hlist ▸ by decide
    · exact hobject ▸ by decide
    · obtain ⟨c', cs', heq, hc⟩ := IsScalar.head ⟨hlt, h⟩
      cases heq
      simp only [openers, List.mem_cons, not_or] at hc
      simp [hc]

/-- No blanks are skipped in front of a value. -/
theorem IsValue.skipBlanks_eq (h : IsValue cs d rest) : skipBlanks cs = cs := by
  obtain ⟨c, cs, rfl, -, hc⟩ := h.head
  exact skipBlanks_cons hc cs

/-! ### Lists -/

theorem areItems_nil (rest : List Char) : AreItems (']' :: rest) [] rest := by
  refine ⟨Nat.lt_succ_self _, ?_⟩
  rw [items]
  split
  · rename_i hs; cases hs
  · rename_i hs
    cases hs
    simp

/-- A value in front of the closing bracket is the last item. -/
theorem IsValue.lastItem (h : IsValue cs d rest) (hrest : skipBlanks rest = ']' :: tail) :
    AreMoreItems cs [d] tail := by
  obtain ⟨hlt, h⟩ := h
  have hle := length_skipBlanks_le rest
  rw [hrest, List.length_cons] at hle
  refine ⟨by omega, ?_⟩
  rw [moreItems]
  simp only [h]
  split
  · rename_i hs; rw [hrest] at hs; cases hs
  · rename_i hs
    rw [hrest] at hs
    cases hs
    simp

/-- A value in front of a comma is an item before the others. -/
theorem IsValue.item (h : IsValue cs d rest) (hrest : skipBlanks rest = ',' :: rest₁)
    (hmore : AreMoreItems (skipBlanks rest₁) ds tail) : AreMoreItems cs (d :: ds) tail := by
  obtain ⟨hlt, h⟩ := h
  obtain ⟨hlt₁, hmore⟩ := hmore
  have hle := length_skipBlanks_le rest
  have hle₁ := length_skipBlanks_le rest₁
  rw [hrest, List.length_cons] at hle
  refine ⟨by omega, ?_⟩
  rw [moreItems]
  simp only [h]
  split
  · rename_i hs; rw [hrest] at hs; cases hs
  · rename_i hs
    rw [hrest] at hs
    cases hs
    simp [hmore]

/-- The first of at least one items is a value. -/
theorem AreMoreItems.value (h : AreMoreItems cs ds rest) : ∃ d rest₁, IsValue cs d rest₁ := by
  obtain ⟨hlt, h⟩ := h
  rw [moreItems] at h
  split at h
  · cases h
  · rename_i d rest₁ hlt₁ hv
    exact ⟨d, rest₁, hlt₁, hv⟩

/-- Items may have blanks in front of them. -/
theorem AreMoreItems.items (h : AreMoreItems cs ds rest) (hb : skipBlanks rest₁ = cs) :
    AreItems rest₁ ds rest := by
  obtain ⟨d, rest₂, hv⟩ := h.value
  obtain ⟨c, cs, rfl, hc, -⟩ := hv.head
  obtain ⟨hlt, h⟩ := h
  have hle := length_skipBlanks_le rest₁
  rw [hb] at hle
  refine ⟨by omega, ?_⟩
  rw [Document.items]
  split
  · rename_i hs; rw [hb] at hs; cases hs
  · rename_i hs
    rw [hb] at hs
    cases hs
    simp [hc, h]

/-! ### Objects -/

theorem areFields_nil (rest : List Char) : AreFields ('\x7d' :: rest) [] rest := by
  refine ⟨Nat.lt_succ_self _, ?_⟩
  rw [fields]
  split
  · rename_i hs; cases hs
  · rename_i hs
    cases hs
    simp

/-- A key, a colon and a value are a field. -/
theorem IsText.field {key : List CodePoint} {v : Document} (h : IsText cs key rest)
    (hrest : skipBlanks rest = ':' :: rest₁) (hv : IsValue (skipBlanks rest₁) v tail) :
    IsField ('"' :: cs) (key, v) tail := by
  obtain ⟨hlt, h⟩ := h
  obtain ⟨hlt₁, hv⟩ := hv
  have hle := length_skipBlanks_le rest
  have hle₁ := length_skipBlanks_le rest₁
  rw [hrest, List.length_cons] at hle
  refine ⟨by rw [List.length_cons]; omega, ?_⟩
  rw [Document.field]
  simp only [h, ↓reduceIte]
  split
  · rename_i hs; rw [hrest] at hs; cases hs
  · rename_i hs
    rw [hrest] at hs
    cases hs
    simp [hv]

/-- A field starts with a quotation mark. -/
theorem IsField.head (h : IsField cs f rest) : ∃ cs', cs = '"' :: cs' := by
  obtain ⟨hlt, h⟩ := h
  cases cs with
  | nil => exact absurd hlt (Nat.not_lt_zero _)
  | cons c cs =>
    rw [field] at h
    split_ifs at h with hquote
    exact ⟨cs, by rw [hquote]⟩

/-- A field in front of the closing brace is the last one. -/
theorem IsField.lastField (h : IsField cs f rest) (hrest : skipBlanks rest = '\x7d' :: tail) :
    AreMoreFields cs [f] tail := by
  obtain ⟨hlt, h⟩ := h
  have hle := length_skipBlanks_le rest
  rw [hrest, List.length_cons] at hle
  refine ⟨by omega, ?_⟩
  rw [moreFields]
  simp only [h]
  split
  · rename_i hs; rw [hrest] at hs; cases hs
  · rename_i hs
    rw [hrest] at hs
    cases hs
    simp

/-- A field in front of a comma stands before the others. -/
theorem IsField.field (h : IsField cs f rest) (hrest : skipBlanks rest = ',' :: rest₁)
    (hmore : AreMoreFields (skipBlanks rest₁) fs tail) : AreMoreFields cs (f :: fs) tail := by
  obtain ⟨hlt, h⟩ := h
  obtain ⟨hlt₁, hmore⟩ := hmore
  have hle := length_skipBlanks_le rest
  have hle₁ := length_skipBlanks_le rest₁
  rw [hrest, List.length_cons] at hle
  refine ⟨by omega, ?_⟩
  rw [moreFields]
  simp only [h]
  split
  · rename_i hs; rw [hrest] at hs; cases hs
  · rename_i hs
    rw [hrest] at hs
    cases hs
    simp [hmore]

theorem AreMoreFields.field (h : AreMoreFields cs fs rest) : ∃ f rest₁, IsField cs f rest₁ := by
  obtain ⟨hlt, h⟩ := h
  rw [moreFields] at h
  split at h
  · cases h
  · rename_i f rest₁ hlt₁ hf
    exact ⟨f, rest₁, hlt₁, hf⟩

/-- Fields may have blanks in front of them. -/
theorem AreMoreFields.fields (h : AreMoreFields cs fs rest) (hb : skipBlanks rest₁ = cs) :
    AreFields rest₁ fs rest := by
  obtain ⟨f, rest₂, hf⟩ := h.field
  obtain ⟨cs, rfl⟩ := hf.head
  obtain ⟨hlt, h⟩ := h
  have hle := length_skipBlanks_le rest₁
  rw [hb] at hle
  refine ⟨by omega, ?_⟩
  rw [Document.fields]
  split
  · rename_i hs; rw [hb] at hs; cases hs
  · rename_i hs
    rw [hb] at hs
    cases hs
    simp [h]

end Step

/-! ## What is written -/

mutual

/-- A document is read back: its numbers are, its whole numbers have no more digits than a document
may have, its texts and keys are strings, and the keys of an object differ. -/
def Readable : Document → Prop
  | null | bool _ => True
  | text ps => ∃ s : String, ps = s
  | int n => (Nat.toDigits 10 n.natAbs).length ≤ maxDigits
  | float x => Number.ReadsBack x
  | list items => ReadableItems items
  | object fields => (fields.map Prod.fst).Nodup ∧ ReadableFields fields

/-- The items of a list are read back. -/
def ReadableItems : List Document → Prop
  | [] => True
  | d :: ds => d.Readable ∧ ReadableItems ds

/-- The fields of an object are read back. -/
def ReadableFields : List (List CodePoint × Document) → Prop
  | [] => True
  | (key, d) :: fields => (∃ s : String, key = s) ∧ d.Readable ∧ ReadableFields fields

end

section Layout

variable (pretty : Bool) (level : Nat) {cs tail : List Char}

/-- A line break with its indentation is skipped. -/
theorem skipBlanks_lineBreak (h : skipBlanks cs = cs) :
    skipBlanks (lineBreak pretty level cs) = cs := by
  cases pretty with
  | false => exact h
  | true =>
    have hspaces : ∀ k, skipBlanks (List.replicate k ' ' ++ cs) = cs := fun k => by
      rw [skipBlanks, List.dropWhile_append_of_pos fun c hc => by
        rw [List.eq_of_mem_replicate hc]; decide]
      exact h
    exact hspaces (2 * level)

/-- What stands between two items is a comma and blanks. -/
theorem skipBlanks_itemBreak (h : skipBlanks cs = cs) :
    ∃ rest, itemBreak pretty level cs = ',' :: rest ∧ skipBlanks rest = cs := by
  cases pretty with
  | false => exact ⟨' ' :: cs, rfl, h⟩
  | true => exact ⟨lineBreak true level cs, rfl, skipBlanks_lineBreak true level h⟩

/-- A number ends in front of a comma, a line break and a closing bracket. -/
theorem stops_of_mem {c : Char} (hc : c ∈ [',', '\n', ']', '\x7d']) (cs : List Char) :
    Stops (c :: cs) := by
  rintro _ ⟨⟩
  simp only [List.mem_cons, List.not_mem_nil, or_false] at hc
  obtain rfl | rfl | rfl | rfl := hc <;> decide

theorem stops_lineBreak (h : Stops cs) : Stops (lineBreak pretty level cs) := by
  cases pretty with
  | false => exact h
  | true => exact stops_of_mem (by decide) _

theorem stops_writeItems (h : Stops tail) (ds : List Document) :
    Stops (writeItems pretty level tail ds) := by
  cases ds with
  | nil => exact h
  | cons d ds => exact stops_of_mem (by decide) _

/-- A number ends in front of the fields behind it. -/
theorem stops_writeFields (h : Stops tail) (fs : List (List CodePoint × Document)) :
    Stops (writeFields pretty level tail fs) := by
  cases fs with
  | nil => exact h
  | cons f fs => exact stops_of_mem (by decide) _

/-- A string is read back as a text. -/
theorem isValue_writeText (s : String) (tail : List Char) :
    IsValue (writeText s tail) (.text s) tail :=
  (isText_flatMap_writePoint s.toList tail).value

/-- A key with its value is read back as a field. -/
theorem IsValue.writeField {d : Document} (h : IsValue cs d tail) (key : String) :
    IsField (writeText key (':' :: ' ' :: cs)) (key, d) tail := by
  have hblank : skipBlanks (' ' :: cs) = cs := h.skipBlanks_eq
  have hkey := isText_flatMap_writePoint key.toList (':' :: ' ' :: cs)
  exact hkey.field rfl (hblank.symm ▸ h)

theorem skipBlanks_writeText (ps : List CodePoint) (tail : List Char) :
    skipBlanks (writeText ps tail) = writeText ps tail := rfl

end Layout

/-! ## Reading what is written

The three statements go by induction on the document together. The text behind is arbitrary, since
every item stands before the items after it; those of a list are read once the item before them is,
so the lists are induction hypotheses about what a value or a field leaves. -/

mutual

/-- A document is read back before anything that cannot go on with a number. -/
theorem isValue_writeAt (pretty : Bool) : (d : Document) → d.Readable →
    ∀ level tail, Stops tail → IsValue (writeAt pretty level tail d) d tail
  | .null, _, level, tail, _ => by
    rw [writeAt]
    exact (isScalar_of_word (by simp [words]) tail).value
  | .bool b, _, level, tail, _ => by
    rw [writeAt]
    cases b with
    | true => exact (isScalar_of_word (by simp [words]) tail).value
    | false => exact (isScalar_of_word (by simp [words]) tail).value
  | .int n, h, level, tail, htail => by
    rw [Readable] at h
    rw [writeAt]
    exact (isScalar_int h htail).value
  | .float x, h, level, tail, htail => by
    rw [Readable] at h
    rw [writeAt]
    exact (isScalar_float h htail).value
  | .text ps, h, level, tail, _ => by
    rw [Readable] at h
    obtain ⟨s, rfl⟩ := h
    rw [writeAt]
    exact isValue_writeText s tail
  | .list [], _, level, tail, _ => by
    rw [writeAt]
    exact (areItems_nil tail).value
  | .list (d :: ds), h, level, tail, _ => by
    rw [Readable, ReadableItems] at h
    -- The closing bracket stands behind all items, on a line of its own where items do.
    have hclose : Stops (lineBreak pretty level (']' :: tail)) :=
      stops_lineBreak pretty level (stops_of_mem (by decide) tail)
    have hd := isValue_writeAt pretty d h.1 (level + 1) _
      (stops_writeItems pretty (level + 1) hclose ds)
    have hmore := areMoreItems_writeItems pretty ds h.2 (level + 1) _ tail hclose
      (skipBlanks_lineBreak pretty level rfl) hd
    rw [writeAt]
    exact (hmore.items (skipBlanks_lineBreak pretty (level + 1) hd.skipBlanks_eq)).value
  | .object [], _, level, tail, _ => by
    rw [writeAt]
    exact (areFields_nil tail).value
  | .object ((key, d) :: fs), h, level, tail, _ => by
    rw [Readable, ReadableFields] at h
    obtain ⟨hnodup, ⟨key, rfl⟩, hd, hfs⟩ := h
    have hclose : Stops (lineBreak pretty level ('\x7d' :: tail)) :=
      stops_lineBreak pretty level (stops_of_mem (by decide) tail)
    have hd := isValue_writeAt pretty d hd (level + 1) _
      (stops_writeFields pretty (level + 1) hclose fs)
    have hmore := areMoreFields_writeFields pretty fs hfs (level + 1) _ tail hclose
      (skipBlanks_lineBreak pretty level rfl) (hd.writeField key)
    -- Each key was set once, so that setting the fields in turn leaves them as they are.
    have hvalue := (hmore.fields
      (skipBlanks_lineBreak pretty (level + 1) (skipBlanks_writeText key _))).value
    rw [Bindings.setEntries_of_nodup hnodup] at hvalue
    rw [writeAt]
    exact hvalue

/-- The items behind a value are read back with it. -/
theorem areMoreItems_writeItems (pretty : Bool) : (ds : List Document) → ReadableItems ds →
    ∀ level close tail, Stops close → skipBlanks close = ']' :: tail →
      ∀ {cs d}, IsValue cs d (writeItems pretty level close ds) → AreMoreItems cs (d :: ds) tail
  | [], _, level, close, tail, _, hclose, cs, d, hd => by
    rw [writeItems] at hd
    exact hd.lastItem hclose
  | e :: ds, h, level, close, tail, hstop, hclose, cs, d, hd => by
    rw [ReadableItems] at h
    have he := isValue_writeAt pretty e h.1 level _ (stops_writeItems pretty level hstop ds)
    have hmore := areMoreItems_writeItems pretty ds h.2 level close tail hstop hclose he
    obtain ⟨rest, hbreak, hrest⟩ := skipBlanks_itemBreak pretty level he.skipBlanks_eq
    rw [writeItems, hbreak] at hd
    exact hd.item rfl (hrest.symm ▸ hmore)

/-- The fields behind a field are read back with it. -/
theorem areMoreFields_writeFields (pretty : Bool) : (fs : List (List CodePoint × Document)) →
    ReadableFields fs → ∀ level close tail, Stops close → skipBlanks close = '\x7d' :: tail →
      ∀ {cs f}, IsField cs f (writeFields pretty level close fs) → AreMoreFields cs (f :: fs) tail
  | [], _, level, close, tail, _, hclose, cs, f, hf => by
    rw [writeFields] at hf
    exact hf.lastField hclose
  | (key, d) :: fs, h, level, close, tail, hstop, hclose, cs, f, hf => by
    rw [ReadableFields] at h
    obtain ⟨⟨key, rfl⟩, hd, hfs⟩ := h
    have hd := isValue_writeAt pretty d hd level _ (stops_writeFields pretty level hstop fs)
    have hmore := areMoreFields_writeFields pretty fs hfs level close tail hstop hclose
      (hd.writeField key)
    obtain ⟨rest, hbreak, hrest⟩ :=
      skipBlanks_itemBreak pretty level (skipBlanks_writeText key _)
    rw [writeFields, hbreak] at hf
    exact hf.field rfl (hrest.symm ▸ hmore)

end

/-- A document is read back from either of its texts. -/
theorem read_write {d : Document} (h : d.Readable) (pretty : Bool) :
    read (d.write pretty) = .ok d := by
  have hwritten := isValue_writeAt pretty d h 0 [] stops_nil
  have hvalue : IsValue (skipBlanks (d.write pretty).toList) d [] := by
    rwa [write, String.toList_ofList, hwritten.skipBlanks_eq]
  obtain ⟨hlt, hvalue⟩ := hvalue
  rw [read, hvalue]
  rfl

end Abacus.Document
