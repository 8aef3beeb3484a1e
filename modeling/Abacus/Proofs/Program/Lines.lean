import Abacus.Proofs.Number.PlainText
import Abacus.Proofs.Program.WellFormed

/-!
# Lines of a trace

A trace is written line by line, between the lines that a program prints. A line of a trace is known
by its mark, and it must not be broken: else what follows the break would stand at the start of a
line without the mark. Names that can be written have no line breaks, nor have the texts of numbers,
and quoting writes line breaks as escapes. So the outlines of well-formed programs are unbroken
(`Expr.unbroken_outline`), and so are all lines about the reading of a source
(`traceLine_of_sourceTrace`, with `Program.traceLine_of_readTrace` for the statements that are read
before the reading fails).
-/

namespace Abacus

/-- There is no line break in the text. -/
def Unbroken (s : String) : Prop := '\n' ∉ s.toList

instance : DecidablePred Unbroken := fun s => inferInstanceAs (Decidable ('\n' ∉ s.toList))

/-- What the lines of traces start with. -/
def traceMarks : List String := ["[DEBUG]", "[PARSE]", "[EVAL]"]

/-- Whether a line starts as the lines of traces do. -/
def isMarked (line : List Char) : Bool := traceMarks.any fun mark => mark.toList.isPrefixOf line

/-- The text is a whole line of a trace. -/
structure TraceLine (s : String) : Prop where
  marked : isMarked s.toList
  unbroken : Unbroken s

/-! ## Texts without line breaks -/

section Unbroken

variable {a b : String}

@[simp] theorem unbroken_append : Unbroken (a ++ b) ↔ Unbroken a ∧ Unbroken b := by
  unfold Unbroken
  rw [String.toList_append, List.mem_append, not_or]

/-- Parts without line breaks make a text without any, with commas between them. -/
theorem unbroken_commas {parts : List String} (h : ∀ part ∈ parts, Unbroken part) :
    Unbroken (", ".intercalate parts) := by
  have hsep : Unbroken ", " := by decide
  induction parts with
  | nil => exact List.not_mem_nil
  | cons part parts ih =>
    obtain ⟨hpart, hparts⟩ := List.forall_mem_cons.mp h
    cases parts with
    | nil => rwa [String.intercalate_singleton]
    | cons next parts =>
      rw [String.intercalate_cons_cons]
      exact unbroken_append.mpr ⟨unbroken_append.mpr ⟨hpart, hsep⟩, ih hparts⟩

theorem unbroken_bracketed {parts : List String} (h : ∀ part ∈ parts, Unbroken part) :
    Unbroken (bracketed parts) := by
  unfold bracketed
  exact unbroken_append.mpr ⟨unbroken_append.mpr ⟨by decide, unbroken_commas h⟩, by decide⟩

/-- The text of a number has no line break. -/
theorem Number.InText.unbroken {s : String} (h : Number.InText s.toList) : Unbroken s :=
  fun hmem => absurd (h '\n' hmem) (by decide)

theorem unbroken_text (x : Float) : Unbroken (Number.text x) := (Number.inText_text x).unbroken

theorem unbroken_plain (x : Float) : Unbroken (Number.plain x) := (Number.inText_plain x).unbroken

theorem unbroken_nat (n : Nat) : Unbroken (toString n) := (Number.inText_int n).unbroken

/-- A word has no line break. -/
theorem IsWord.unbroken (h : IsWord a) : Unbroken a := by
  obtain ⟨c, cs, hcs, hc, hd⟩ := h
  unfold Unbroken
  rw [hcs]
  intro hmem
  rcases List.mem_cons.mp hmem with rfl | hmem
  · exact absurd hc (by decide)
  · exact absurd (hd _ hmem) (by decide)

theorem newline_notMem_toDigits (n : Nat) : '\n' ∉ Nat.toDigits 16 n := by
  have hdigit : ∀ m < 16, '\n' ∉ [Nat.digitChar m] := by decide
  induction n using Nat.strongRecOn with
  | ind n ih =>
    by_cases hn : n < 16
    · rw [Nat.toDigits_of_lt_base hn]
      exact hdigit n hn
    · rw [Nat.toDigits_of_base_le (by decide) (Nat.le_of_not_lt hn), List.mem_append, not_or]
      exact ⟨ih _ (by omega), hdigit _ (Nat.mod_lt _ (by decide))⟩

/-- Hexadecimal digits have no line break. -/
theorem newline_notMem_hexPadded (width n : Nat) : '\n' ∉ Text.hexPadded width n := by
  unfold Text.hexPadded
  rw [List.mem_append, not_or]
  refine ⟨fun hmem => ?_, newline_notMem_toDigits n⟩
  exact absurd (List.mem_replicate.mp hmem).2 (by decide)

/-- A line break is written as an escape, and no escape has one in it. -/
theorem newline_notMem_quoteChar {mark : Char} (hmark : mark ≠ '\n') (c : Char) :
    '\n' ∉ Text.quoteChar mark c := by
  have hescape : ∀ {letter : Char} {width n : Nat}, letter ≠ '\n' →
      '\n' ∉ '\\' :: letter :: Text.hexPadded width n := fun hletter =>
    List.not_mem_cons_of_ne_of_not_mem (by decide)
      (List.not_mem_cons_of_ne_of_not_mem hletter.symm (newline_notMem_hexPadded _ _))
  unfold Text.quoteChar
  by_cases hnewline : c = '\n'
  · subst hnewline
    rw [if_neg (by simp [hmark.symm])]
    decide
  · split
    · simp [Ne.symm hnewline]
    split
    · decide
    split
    · decide
    split
    · simp [Ne.symm hnewline]
    split
    · exact hescape (by decide)
    split
    · exact hescape (by decide)
    · exact hescape (by decide)

/-- A quoted text has no line break, since those are written as escapes. -/
theorem unbroken_quote (s : String) : Unbroken (Text.quote s) := by
  have hmark : Text.quotationMark s.toList ≠ '\n' := by
    unfold Text.quotationMark
    split
    · decide
    · decide
  have hchars : '\n' ∉ s.toList.flatMap (Text.quoteChar (Text.quotationMark s.toList)) := by
    rw [List.mem_flatMap]
    rintro ⟨c, -, hc⟩
    exact newline_notMem_quoteChar hmark c hc
  unfold Unbroken Text.quote
  rw [String.toList_ofList]
  simp [hmark.symm, hchars]

end Unbroken

/-! ## Outlines -/

theorem unbroken_quoted (names : List String) :
    ∀ part ∈ names.map Text.quote, Unbroken part := by
  rw [List.forall_mem_map]
  exact fun name _ => unbroken_quote name

theorem UnaryOp.unbroken_name (op : UnaryOp) : Unbroken op.name := by
  cases op <;> decide

theorem BinaryOp.unbroken_name (op : BinaryOp) : Unbroken op.name := by
  cases op <;> decide

mutual

/-- The outline of an expression whose names can be written stands on one line. -/
theorem Expr.unbroken_outline : (x : Expr) → x.WellFormed → Unbroken x.outline
  | .number v, _ => by
    simp only [outline, unbroken_append, unbroken_text, and_true]
    decide
  | .var name, hx => by
    unfold WellFormed at hx
    simp only [outline, unbroken_append, hx.1.unbroken, and_true]
    decide
  | .unary op x, hx => by
    unfold WellFormed at hx
    simp only [outline, unbroken_append, op.unbroken_name, Expr.unbroken_outline x hx, and_true]
    decide
  | .binary op x y, hx => by
    unfold WellFormed at hx
    simp only [outline, unbroken_append, op.unbroken_name, Expr.unbroken_outline x hx.1,
      Expr.unbroken_outline y hx.2, and_true]
    decide
  | .conditional c t e, hx => by
    unfold WellFormed at hx
    simp only [outline, unbroken_append, Expr.unbroken_outline c hx.1,
      Expr.unbroken_outline t hx.2.1, Expr.unbroken_outline e hx.2.2, and_true]
    decide
  | .call name args, hx => by
    unfold WellFormed at hx
    have hargs := unbroken_bracketed (Expr.unbroken_outlineList args hx.2)
    simp only [outline, unbroken_append, hx.1.1.unbroken, hargs, and_true]
    decide
  | .lambda params body, hx => by
    unfold WellFormed at hx
    have hparams := unbroken_bracketed (unbroken_quoted params)
    simp only [outline, unbroken_append, hparams, Expr.unbroken_outline body hx.2, and_true]
    decide

/-- The outlines of well-formed expressions have no line break. -/
theorem Expr.unbroken_outlineList : (xs : List Expr) → Expr.WellFormedList xs →
    ∀ part ∈ Expr.outlineList xs, Unbroken part
  | [], _ => by
    unfold outlineList
    exact fun part hpart => by cases hpart
  | x :: xs, hxs => by
    unfold WellFormedList at hxs
    unfold outlineList
    exact List.forall_mem_cons.mpr
      ⟨Expr.unbroken_outline x hxs.1, Expr.unbroken_outlineList xs hxs.2⟩

end

/-- The outline of a well-formed statement has no line break. -/
theorem Stmt.unbroken_outline {s : Stmt} (hs : s.WellFormed) : Unbroken s.outline := by
  cases s with
  | assign name value =>
    simp only [outline, unbroken_append, hs.1.unbroken, value.unbroken_outline hs.2.2, and_true]
    decide
  | expr value =>
    simp only [outline, unbroken_append, value.unbroken_outline hs, and_true]
    decide

/-- The outline of a token has no line break, since its text is quoted in it. -/
theorem Token.unbroken_outline (t : Token) : Unbroken t.outline := by
  have hlabel : Unbroken t.kind.label := by cases t.kind <;> decide
  unfold Token.outline
  split
  · exact hlabel
  · simp only [unbroken_append, hlabel, unbroken_quote, and_true]
    decide

/-! ## Lines about the reading -/

/-- What stands behind a mark does not matter. -/
theorem isMarked_append {a : String} (b : String) (h : isMarked a.toList) :
    isMarked (a ++ b).toList := by
  unfold isMarked at h ⊢
  rw [List.any_eq_true] at h ⊢
  obtain ⟨mark, hmark, hprefix⟩ := h
  refine ⟨mark, hmark, ?_⟩
  rw [List.isPrefixOf_iff_prefix] at hprefix ⊢
  rw [String.toList_append]
  exact hprefix.trans (List.prefix_append _ _)

namespace Scan

/-- Line breaks are shown one by one. -/
theorem showBreaks_append (a b : String) : showBreaks (a ++ b) = showBreaks a ++ showBreaks b := by
  unfold showBreaks
  rw [String.toList_append, List.flatMap_append, String.ofList_append]

/-- Where line breaks are shown, none is left. -/
theorem unbroken_showBreaks (s : String) : Unbroken (showBreaks s) := by
  unfold Unbroken showBreaks
  rw [String.toList_ofList, List.mem_flatMap]
  rintro ⟨c, -, hc⟩
  split at hc
  · exact absurd hc (by decide)
  split at hc
  · exact absurd hc (by decide)
  · rename_i hne _
    exact hne (List.mem_singleton.mp hc).symm

/-- The line of a place is a trace line: no line break of the source is left in it. -/
theorem traceLine_placeLine (pos : Nat) (cs : List Char) : TraceLine (placeLine pos cs) where
  marked := by
    unfold placeLine
    simp only [showBreaks_append]
    iterate 6 apply isMarked_append
    decide
  unbroken := unbroken_showBreaks _

/-- The line of a piece is a trace line. -/
theorem traceLine_pieceLine (t : Token) : TraceLine (pieceLine t) where
  marked := by
    unfold pieceLine
    iterate 3 apply isMarked_append
    decide
  unbroken := by
    unfold pieceLine
    simp only [unbroken_append]
    exact ⟨⟨⟨by decide, t.unbroken_outline⟩, by decide⟩, unbroken_nat _⟩

/-- All lines of a scan are trace lines. -/
theorem traceLine_of_trace (source : String) (s : Scan) :
    ∀ line ∈ s.trace source, TraceLine line := by
  have hfrom : ∀ (ts : List Token) (cs : List Char) (pos : Nat) (failed : Bool),
      ∀ line ∈ traceFrom cs pos failed ts, TraceLine line := by
    intro ts
    induction ts with
    | nil =>
      intro cs pos failed
      unfold traceFrom
      split
      · exact List.forall_mem_singleton.mpr (traceLine_placeLine pos cs)
      · exact fun line hline => by cases hline
    | cons t ts ih =>
      intro cs pos failed
      unfold traceFrom
      exact List.forall_mem_cons.mpr ⟨traceLine_placeLine _ _,
        List.forall_mem_cons.mpr ⟨traceLine_pieceLine t, ih _ _ _⟩⟩
  exact hfrom _ _ _ _

end Scan

namespace Parser

/-- The statements that are read before the reading fails are spelled by tokens of the list. -/
theorem spells_of_mem_read {ts : List Token} {s : Stmt} (h : s ∈ (statementsFrom ts).read) :
    ∃ us, us ⊆ ts ∧ SpellsStmt us s := by
  cases ts with
  | nil =>
    rw [statementsFrom] at h
    cases h
  | cons t us =>
    by_cases ht : t.isEnd
    · rw [statementsFrom_end ht] at h
      cases h
    cases hs : stmt (t :: us) with
    | error err =>
      rw [statementsFrom_error (by simpa using ht) hs] at h
      cases h
    | ok r =>
      obtain ⟨first, rest, hlt⟩ := r
      obtain ⟨vs, hvs, hfirst⟩ := stmt_sound ⟨hlt, hs⟩
      -- The statement that was read first is spelled by the tokens in front of the rest.
      have hhead : ∃ us', us' ⊆ t :: us ∧ SpellsStmt us' first :=
        ⟨vs, by rw [hvs]; exact List.subset_append_left _ _, hfirst⟩
      rw [statementsFrom_cons (by simpa using ht) ⟨hlt, hs⟩] at h
      cases rest with
      | nil => rwa [List.mem_singleton.mp h]
      | cons v ws =>
        rw [statementsAfter] at h
        split at h
        · rwa [List.mem_singleton.mp h]
        split at h
        · rcases List.mem_cons.mp h with rfl | h
          · exact hhead
          · -- The others are read behind the separators, from fewer tokens.
            have hlen : (skipSeparators ws).length < (t :: us).length :=
              Nat.lt_of_le_of_lt (length_skipSeparators_le ws)
                (Nat.lt_trans (Nat.lt_succ_self _) hlt)
            obtain ⟨us', hsub, hs'⟩ := spells_of_mem_read h
            refine ⟨us', fun u hu => ?_, hs'⟩
            rw [hvs]
            refine List.mem_append_right _ (List.mem_cons_of_mem _ ?_)
            exact (List.dropWhile_sublist _).subset (hsub hu)
        · rwa [List.mem_singleton.mp h]
termination_by ts.length

end Parser

/-- The tokens of a source but the last one fit. -/
theorem fit_of_subset {us body : List Token} {source : String}
    (hbody : ∀ t ∈ body, Lexicon.standard.Fits t.kind t.text ∧ t.kind ≠ .blank)
    (hus : us ⊆ body ++ [Token.endAt source.length]) (hend : NoEnd us) : Fit us := by
  intro t ht
  rcases List.mem_append.mp (hus ht) with h | h
  · exact (hbody t h).1
  · have hno := hend t ht
    rw [List.mem_singleton.mp h] at hno
    cases hno

theorem Parser.closed_subset_tokens {body : List Token} {source : String} :
    skipSeparators (closed (body ++ [Token.endAt source.length])) ⊆
      body ++ [Token.endAt source.length] := by
  rw [closed_of_end rfl]
  exact (List.dropWhile_sublist _).subset

/-- All lines of reading a program are trace lines, since what is read is well-formed. -/
theorem Program.traceLine_of_readTrace {source : String} {ts : List Token}
    (hts : Lexicon.standard.tokens source = .ok ts) :
    ∀ line ∈ Program.readTrace ts, TraceLine line := by
  obtain ⟨body, rfl, hbody⟩ := Lexicon.tokens_ok hts
  unfold Program.readTrace
  split
  · exact fun line hline => by cases hline
  · intro line hline
    obtain ⟨i, hi, rfl⟩ := List.mem_mapIdx.mp hline
    obtain ⟨us, hus, hspells⟩ := Parser.spells_of_mem_read (List.getElem_mem hi)
    have hus' := fun t ht => Parser.closed_subset_tokens (hus (a := t) ht)
    have houtline := Stmt.unbroken_outline
      (hspells.wellFormed (fit_of_subset hbody hus' hspells.noEnd))
    refine ⟨?_, ?_⟩
    · iterate 3 apply isMarked_append
      decide
    · simp only [unbroken_append, unbroken_nat, houtline, and_true]
      decide

/-- An expression that is read from scanned tokens is well-formed. -/
theorem Expr.wellFormed_of_ofTokens {source : String} {ts : List Token} {x : Expr}
    (hts : Lexicon.standard.tokens source = .ok ts) (hx : Expr.ofTokens ts = .ok x) :
    x.WellFormed := by
  obtain ⟨body, rfl, hbody⟩ := Lexicon.tokens_ok hts
  have hend : NoEnd body := fun t ht => (hbody t ht).1.not_end
  obtain ⟨before, us, behind, rfl, -, hus, -⟩ := (Expr.ofTokens_iff hend rfl).mp hx
  refine hus.wellFormed fun t ht => (hbody t ?_).1
  exact List.mem_append_right _ (List.mem_append_left _ ht)

/-- All lines of reading a single expression are trace lines. -/
theorem Expr.traceLine_of_readTrace {source : String} {ts : List Token}
    (hts : Lexicon.standard.tokens source = .ok ts) :
    ∀ line ∈ Expr.readTrace ts, TraceLine line := by
  unfold Expr.readTrace
  cases hx : Expr.ofTokens ts with
  | error e => exact fun line hline => by cases hline
  | ok x =>
    have houtline := x.unbroken_outline (wellFormed_of_ofTokens hts hx)
    refine List.forall_mem_singleton.mpr ⟨?_, ?_⟩
    · apply isMarked_append
      decide
    · exact unbroken_append.mpr ⟨by decide, houtline⟩

/-- What is read from a source as a single expression is well-formed. -/
theorem Expr.wellFormed_of_ofSource {source : String} {x : Expr}
    (h : Expr.ofSource source = .ok x) : x.WellFormed := by
  obtain ⟨ts, hts, hx⟩ := Expr.ofSource_ok_iff.mp h
  exact wellFormed_of_ofTokens hts hx

/-- Every line about the reading of a source is a line of a trace, if those about the reading of its
tokens are. -/
theorem traceLine_of_sourceTrace {readTrace : List Token → List String} {source : String}
    (h : ∀ ts, Lexicon.standard.tokens source = .ok ts → ∀ line ∈ readTrace ts, TraceLine line) :
    ∀ line ∈ sourceTrace readTrace source, TraceLine line := by
  unfold sourceTrace
  intro line hline
  rcases List.mem_append.mp hline with hline | hline
  · exact Scan.traceLine_of_trace _ _ line hline
  · split at hline
    · cases hline
    · rename_i ts hts
      exact h ts hts line hline

end Abacus
