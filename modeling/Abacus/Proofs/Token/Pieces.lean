import Abacus.Proofs.Token.Scan

/-!
# Single pieces of a text

What the scanner cuts off at one place. `Lexicon.Maximal l rest kind run`: the piece `run` of a kind
stands in front of `rest`, and nothing of `rest` could have belonged to it.

* `Lexicon.maximal_of_next?`: every piece that the scanner cuts off is as long as it can be.
* `Lexicon.next?_local`: what the scanner cuts off does not depend on the text behind it.
-/

namespace Abacus

namespace Lexicon

variable {l : Lexicon} {cs run rest : List Char} {kind : TokenKind}

/-! ## The longest word -/

/-- No word is found if none starts the text. -/
theorem longest?_eq_none_iff {ws : List String} :
    longest? cs ws = none ↔ ∀ w ∈ ws, ¬ w.toList <+: cs := by
  induction ws with
  | nil => simp [longest?]
  | cons w ws ih =>
    rw [longest?, List.forall_mem_cons, ← ih]
    cases longest? cs ws with
    | none => simp
    | some v => simp only [reduceCtorEq, and_false, iff_false]; split <;> simp

/-- The word that is found starts the text, and no longer one does. -/
theorem longest?_spec {ws : List String} (h : longest? cs ws = some run) :
    (∃ w ∈ ws, w.toList = run) ∧ run <+: cs ∧
      ∀ w ∈ ws, w.toList <+: cs → w.length ≤ run.length := by
  induction ws generalizing run with
  | nil => cases h
  | cons w ws ih =>
    rw [longest?] at h
    cases hv : longest? cs ws with
    | none =>
      simp only [hv, Option.ite_none_right_eq_some, Option.some.injEq] at h
      obtain ⟨hw, rfl⟩ := h
      refine ⟨⟨w, List.mem_cons_self, rfl⟩, List.isPrefixOf_iff_prefix.mp hw, ?_⟩
      refine List.forall_mem_cons.mpr ⟨fun _ => String.length_toList.ge, fun u hu hcs => ?_⟩
      exact absurd hcs (longest?_eq_none_iff.mp hv u hu)
    | some v =>
      obtain ⟨⟨u, hu, huv⟩, hcs, hmax⟩ := ih hv
      simp only [hv, Bool.and_eq_true, decide_eq_true_eq] at h
      split at h
      · rename_i hw
        cases h
        refine ⟨⟨w, List.mem_cons_self, rfl⟩, List.isPrefixOf_iff_prefix.mp hw.1, ?_⟩
        rw [String.length_toList]
        refine List.forall_mem_cons.mpr ⟨fun _ => le_rfl, fun u hu hcs => ?_⟩
        exact (hmax u hu hcs).trans hw.2.le
      · rename_i hw
        cases h
        refine ⟨⟨u, List.mem_cons_of_mem w hu, huv⟩, hcs, ?_⟩
        refine List.forall_mem_cons.mpr ⟨fun hwcs => ?_, hmax⟩
        exact Nat.le_of_not_lt fun hlt => hw ⟨List.isPrefixOf_iff_prefix.mpr hwcs, hlt⟩

/-- The word that is found starts the text, and no longer word does. -/
theorem longest?_eq_some_iff {ws : List String} : longest? cs ws = some run ↔
    (∃ w ∈ ws, w.toList = run) ∧ run <+: cs ∧
      ∀ w ∈ ws, w.toList <+: cs → w.length ≤ run.length := by
  refine ⟨longest?_spec, fun ⟨⟨w, hw, hrun⟩, hcs, hmax⟩ => ?_⟩
  cases hv : longest? cs ws with
  | none => exact absurd (hrun ▸ hcs) (longest?_eq_none_iff.mp hv w hw)
  | some v =>
    -- Both words are the longest one that starts the text, so that they are the same word.
    obtain ⟨⟨u, hu, huv⟩, hvcs, hvmax⟩ := longest?_spec hv
    have hle := hmax u hu (huv ▸ hvcs)
    have hge := hvmax w hw (hrun ▸ hcs)
    rw [← String.length_toList, huv] at hle
    rw [← String.length_toList, hrun] at hge
    rw [(List.prefix_of_prefix_length_le hvcs hcs hle).eq_of_length_le hge]

/-! ## What cannot be longer -/

/-- What may stand between two tokens at a depth of parentheses: blanks, comments up to the end of
their lines and, inside parentheses, newlines. `rest` is what comes next. -/
inductive Gap (depth : Nat) (rest : List Char) : List Char → Prop
  | nil : Gap depth rest []
  | blank {c : Char} {cs : List Char} (hc : isBlank c) (hcs : Gap depth rest cs) :
      Gap depth rest (c :: cs)
  | newline {cs : List Char} (hdepth : 0 < depth) (hcs : Gap depth rest cs) :
      Gap depth rest ('\n' :: cs)
  | comment {body cs : List Char} (hbody : '\n' ∉ body) (hend : ∀ c ∈ (cs ++ rest).head?, c = '\n')
      (hcs : Gap depth rest cs) : Gap depth rest ('#' :: (body ++ cs))

/-- The run is one of the words, and no longer one of them starts the text. -/
def IsLongest (ws : List String) (rest run : List Char) : Prop :=
  (∃ w ∈ ws, w.toList = run) ∧ ∀ w ∈ ws, w.toList <+: run ++ rest → w.length ≤ run.length

/-- Nothing of `rest`, which stands behind the piece, could have belonged to it. -/
def Maximal (l : Lexicon) (rest : List Char) (kind : TokenKind) (run : List Char) : Prop :=
  match kind with
  | .blank => Gap 0 rest run
  | .newline => run = ['\n']
  | .number => ∀ c ∈ rest.head?, c.isDigit = false ∧ ('.' ∉ run → c ≠ '.')
  | .operator => IsLongest l.operators rest run
  | .identifier | .keyword => ∀ c ∈ rest.head?, isWordPart c = false
  | .delimiter => IsLongest l.delimiters rest run
  | .endOfText | .other => True

/-- Behind the characters that were dropped stands one that does not count, if any. -/
theorem head?_dropWhile {p : Char → Bool} {cs : List Char} :
    ∀ c ∈ (cs.dropWhile p).head?, p c = false := by
  intro c hc
  have h := List.head?_dropWhile_not p cs
  rw [Option.mem_def.mp hc] at h
  simpa using h

/-- A comment goes on to the end of its line. -/
theorem blankRun_comment (cs : List Char) : blankRun true cs = cs.takeWhile (· ≠ '\n') := by
  induction cs with
  | nil => rfl
  | cons c cs ih =>
    rw [blankRun, ih]
    by_cases hc : c = '\n'
    · simp [hc]
    · simp [hc]

/-- Blanks and comments make up a gap, and the gap ends where something else starts. -/
theorem gap_blankRun (cs : List Char) :
    ∃ rest, cs = blankRun false cs ++ rest ∧ Gap 0 rest (blankRun false cs) := by
  induction cs with
  | nil => exact ⟨[], rfl, .nil⟩
  | cons c cs ih =>
    rw [blankRun]
    by_cases hn : c = '\n'
    · exact ⟨c :: cs, by simp [hn], by simp [hn, Gap.nil]⟩
    by_cases hc : c = '#'
    · -- The comment is the last part of the run: a newline or the end of the text comes next.
      subst hc
      refine ⟨cs.dropWhile (· ≠ '\n'), ?_, ?_⟩
      · simp [blankRun_comment, List.takeWhile_append_dropWhile]
      · have hbody : '\n' ∉ cs.takeWhile (· ≠ '\n') := fun h => by
          simpa using List.all_eq_true.mp List.all_takeWhile _ h
        have hend : ∀ c ∈ ([] ++ cs.dropWhile (· ≠ '\n')).head?, c = '\n' := fun c hc => by
          simpa using head?_dropWhile c hc
        simpa [blankRun_comment] using Gap.comment hbody hend .nil
    · obtain ⟨rest, hcs, hgap⟩ := ih
      by_cases hb : isBlank c
      · refine ⟨rest, ?_, ?_⟩
        · simpa [hn, hc, hb] using hcs
        · simpa [hn, hc, hb] using Gap.blank hb hgap
      · exact ⟨c :: cs, by simp [hn, hc, hb], by simp [hn, hc, hb, Gap.nil]⟩

/-- Digits are taken as a whole: none follows, and no point if there was none before. -/
theorem numberRun_stops (h : numberRun cs ≠ []) :
    ∃ rest, cs = numberRun cs ++ rest ∧
      ∀ c ∈ rest.head?, c.isDigit = false ∧ ('.' ∉ numberRun cs → c ≠ '.') := by
  have hsplit := List.takeWhile_append_dropWhile (p := Char.isDigit) (l := cs)
  have hhead := @head?_dropWhile Char.isDigit cs
  rw [numberRun] at h ⊢
  split at h
  · exact absurd rfl h
  · rename_i hw
    simp only [hw, Bool.false_eq_true, ↓reduceIte]
    split
    · rename_i fraction hfraction
      refine ⟨fraction.dropWhile Char.isDigit, ?_, fun c hc => ⟨head?_dropWhile c hc, ?_⟩⟩
      · rw [List.append_assoc, List.cons_append, List.takeWhile_append_dropWhile, ← hfraction,
          hsplit]
      · exact fun hpoint => absurd (by simp) hpoint
    · rename_i hpoint
      refine ⟨cs.dropWhile Char.isDigit, hsplit.symm, fun c hc => ⟨hhead c hc, ?_⟩⟩
      rintro - rfl
      obtain ⟨fraction, hfraction⟩ := List.head?_eq_some_iff.mp hc
      exact hpoint fraction hfraction

/-- A word is taken as a whole: no part of a word follows. -/
theorem wordRun_stops (h : wordRun cs ≠ []) :
    ∃ rest, cs = wordRun cs ++ rest ∧ ∀ c ∈ rest.head?, isWordPart c = false := by
  cases cs with
  | nil => exact absurd rfl h
  | cons c cs =>
    rw [wordRun] at h ⊢
    split at h
    · rename_i hc
      rw [if_pos hc]
      exact ⟨cs.dropWhile isWordPart, by rw [List.cons_append, List.takeWhile_append_dropWhile],
        head?_dropWhile⟩
    · exact absurd rfl h

/-- A line break is one character. -/
theorem newlineRun_eq (h : newlineRun cs ≠ []) :
    ∃ rest, cs = '\n' :: rest ∧ newlineRun cs = ['\n'] := by
  unfold newlineRun at h ⊢
  split
  · exact ⟨_, rfl, rfl⟩
  · simp at h

theorem isLongest_of_longest? {ws : List String} (h : longest? cs ws = some run) :
    ∃ rest, cs = run ++ rest ∧ IsLongest ws rest run := by
  obtain ⟨hmem, ⟨rest, rfl⟩, hmax⟩ := longest?_spec h
  exact ⟨rest, rfl, hmem, hmax⟩

/-- Every piece that the scanner cuts off is as long as it can be. -/
theorem maximal_of_next? (h : l.next? cs = some (kind, run)) :
    ∃ rest, cs = run ++ rest ∧ l.Maximal rest kind run := by
  simp only [next?, Option.orElse_eq_orElse, Option.orElse_eq_or, Option.or_eq_some_iff] at h
  rcases h with h | ⟨-, h | ⟨-, h | ⟨-, h | ⟨-, h | ⟨-, h⟩⟩⟩⟩⟩
  · cases (piece?_eq_some h).1
    exact gap_blankRun cs
  · cases (piece?_eq_some h).1
    obtain ⟨rest, hcs, hrun⟩ := newlineRun_eq (piece?_eq_some h).2
    exact ⟨rest, by rw [hrun, hcs]; rfl, hrun⟩
  · cases (piece?_eq_some h).1
    exact numberRun_stops (piece?_eq_some h).2
  · cases (piece?_eq_some h).1
    cases hlong : longest? cs l.operators with
    | none => exact absurd (by rw [hlong]; rfl) (piece?_eq_some h).2
    | some run => exact isLongest_of_longest? hlong
  · cases (piece?_eq_some h).1
    obtain ⟨rest, hcs, hrest⟩ := wordRun_stops (piece?_eq_some h).2
    refine ⟨rest, hcs, ?_⟩
    unfold wordKind
    split
    · exact hrest
    · exact hrest
  · obtain ⟨run, hlong, he⟩ := Option.map_eq_some_iff.mp h
    cases he
    exact isLongest_of_longest? hlong

/-- A piece that is found is not empty. -/
theorem ne_nil_of_piece? {kind' : TokenKind} (h : piece? kind' cs = some (kind, run)) :
    run ≠ [] := by
  cases (piece?_eq_some h).1
  exact (piece?_eq_some h).2

/-- Without an empty delimiter, every piece has a character. -/
theorem ne_nil_of_next? (hl : "" ∉ l.delimiters) (h : l.next? cs = some (kind, run)) :
    run ≠ [] := by
  simp only [next?, Option.orElse_eq_orElse, Option.orElse_eq_or, Option.or_eq_some_iff] at h
  rcases h with h | ⟨-, h | ⟨-, h | ⟨-, h | ⟨-, h | ⟨-, h⟩⟩⟩⟩⟩
  · exact ne_nil_of_piece? h
  · exact ne_nil_of_piece? h
  · exact ne_nil_of_piece? h
  · exact ne_nil_of_piece? h
  · exact ne_nil_of_piece? h
  · obtain ⟨run, hlong, he⟩ := Option.map_eq_some_iff.mp h
    cases he
    obtain ⟨⟨w, hw, hrun⟩, -⟩ := longest?_spec hlong
    rintro rfl
    rw [String.toList_eq_nil_iff.mp hrun] at hw
    exact hl hw

/-! ## Cutting a text off -/

/-- What the reader finds does not depend on the text behind it. -/
def ReadsLocally (read : List Char → List Char) : Prop :=
  ∀ cs k, (read cs).length ≤ k → read (cs.take k) = read cs

/-- Blanks are read in the same way where the text is cut off behind them. -/
theorem blankRun_take (inComment : Bool) (cs : List Char) (k : Nat)
    (hk : (blankRun inComment cs).length ≤ k) :
    blankRun inComment (cs.take k) = blankRun inComment cs := by
  induction cs generalizing inComment k with
  | nil => rw [List.take_nil]
  | cons c cs ih =>
    cases k with
    | zero => exact (List.length_eq_zero_iff.mp (Nat.le_zero.mp hk)).symm
    | succ k =>
      rw [List.take_succ_cons]
      unfold blankRun at hk ⊢
      split_ifs at hk ⊢
      · rfl
      · rw [ih true k (Nat.le_of_succ_le_succ hk)]
      · rw [ih false k (Nat.le_of_succ_le_succ hk)]
      · rfl

theorem newlineRun_local : ReadsLocally newlineRun := by
  intro cs k hk
  cases cs with
  | nil => rw [List.take_nil]
  | cons c cs =>
    cases k with
    | zero => exact (List.length_eq_zero_iff.mp (Nat.le_zero.mp hk)).symm
    | succ k =>
      rw [List.take_succ_cons]
      by_cases hc : c = '\n'
      · subst hc
        rfl
      · simp [newlineRun, hc]

/-- Characters that count are taken in the same way where the text is cut off behind them. -/
theorem takeWhile_take {p : Char → Bool} {cs : List Char} {k : Nat}
    (hk : (cs.takeWhile p).length ≤ k) :
    (cs.take k).takeWhile p = cs.takeWhile p ∧
      (cs.take k).dropWhile p = (cs.dropWhile p).take (k - (cs.takeWhile p).length) := by
  induction cs generalizing k with
  | nil => simp
  | cons c cs ih =>
    by_cases hc : p c
    · cases k with
      | zero => simp [hc] at hk
      | succ k =>
        obtain ⟨h₁, h₂⟩ := ih (k := k) (by simpa [hc] using hk)
        simp [hc, h₁, h₂]
    · cases k with
      | zero => simp [hc]
      | succ k => simp [hc]

/-- A point and digits at the start. -/
def fractionRun : List Char → List Char
  | '.' :: rest => '.' :: rest.takeWhile Char.isDigit
  | _ => []

theorem fractionRun_local : ReadsLocally fractionRun := by
  intro cs k hk
  cases cs with
  | nil => rw [List.take_nil]
  | cons c cs =>
    cases k with
    | zero => exact (List.length_eq_zero_iff.mp (Nat.le_zero.mp hk)).symm
    | succ k =>
      rw [List.take_succ_cons]
      by_cases hc : c = '.'
      · subst hc
        rw [fractionRun] at hk
        rw [fractionRun, fractionRun, (takeWhile_take (Nat.le_of_succ_le_succ hk)).1]
      · simp [fractionRun, hc]

/-- A number is its digits, with a point and further digits if these follow. -/
theorem numberRun_eq (cs : List Char) :
    numberRun cs = if cs.takeWhile Char.isDigit = [] then []
      else cs.takeWhile Char.isDigit ++ fractionRun (cs.dropWhile Char.isDigit) := by
  simp only [numberRun, List.isEmpty_iff]
  split
  · rfl
  · unfold fractionRun
    split <;> simp_all

/-- A number is read in the same way where the text is cut off behind it. -/
theorem numberRun_local : ReadsLocally numberRun := by
  intro cs k hk
  rw [numberRun_eq] at hk
  rw [numberRun_eq, numberRun_eq]
  by_cases hw : cs.takeWhile Char.isDigit = []
  · have hle : (cs.takeWhile Char.isDigit).length ≤ k := by simp [hw]
    rw [(takeWhile_take hle).1, if_pos hw, if_pos hw]
  · rw [if_neg hw, List.length_append] at hk
    obtain ⟨h₁, h₂⟩ := @takeWhile_take Char.isDigit cs k (by omega)
    rw [h₁, h₂, if_neg hw, if_neg hw, fractionRun_local _ _ (by omega)]

/-- A word is read in the same way where the text is cut off behind it. -/
theorem wordRun_local : ReadsLocally wordRun := by
  intro cs k hk
  cases cs with
  | nil => rw [List.take_nil]
  | cons c cs =>
    cases k with
    | zero => exact (List.length_eq_zero_iff.mp (Nat.le_zero.mp hk)).symm
    | succ k =>
      rw [wordRun] at hk
      rw [List.take_succ_cons, wordRun, wordRun]
      by_cases hc : isWordStart c
      · rw [if_pos hc] at hk
        rw [(takeWhile_take (Nat.le_of_succ_le_succ hk)).1]
      · rw [if_neg hc, if_neg hc]

/-- A word is found in the same way where the text is cut off behind it. -/
theorem longest?_take {ws : List String} {k : Nat} (h : longest? cs ws = some run)
    (hk : run.length ≤ k) : longest? (cs.take k) ws = some run := by
  obtain ⟨hmem, hcs, hmax⟩ := longest?_spec h
  refine longest?_eq_some_iff.mpr ⟨hmem, List.prefix_take_iff.mpr ⟨hcs, hk⟩, fun w hw htake => ?_⟩
  exact hmax w hw (htake.trans (List.take_prefix k cs))

theorem longest?_take_eq_none {ws : List String} (k : Nat) (h : longest? cs ws = none) :
    longest? (cs.take k) ws = none := by
  rw [longest?_eq_none_iff] at h ⊢
  exact fun w hw htake => h w hw (htake.trans (List.take_prefix k cs))

/-- What the reader of a piece finds, or that it finds nothing, does not depend on the text behind
the piece. -/
def FindsLocally (find : List Char → Option (TokenKind × List Char)) : Prop :=
  ∀ cs k, (find cs = none → find (cs.take k) = none) ∧
    ∀ kind run, find cs = some (kind, run) → run.length ≤ k → find (cs.take k) = some (kind, run)

/-- Where two ways to find a piece look no further than the piece, one after the other does not
either. -/
theorem FindsLocally.orElse {find find' : List Char → Option (TokenKind × List Char)}
    (h : FindsLocally find) (h' : FindsLocally find') :
    FindsLocally fun cs => (find cs).or (find' cs) := by
  intro cs k
  obtain ⟨hnone, hsome⟩ := h cs k
  obtain ⟨hnone', hsome'⟩ := h' cs k
  dsimp only
  constructor
  · intro hcs
    obtain ⟨h₁, h₂⟩ := Option.or_eq_none_iff.mp hcs
    rw [hnone h₁, hnone' h₂, Option.or_none]
  · intro kind run hcs hk
    rcases Option.or_eq_some_iff.mp hcs with h₁ | ⟨h₁, h₂⟩
    · rw [hsome _ _ h₁ hk, Option.some_or]
    · rw [hnone h₁, hsome' _ _ h₂ hk, Option.none_or]

theorem ReadsLocally.piece? {read : List Char → List Char} (h : ReadsLocally read)
    (kind : List Char → TokenKind) : FindsLocally fun cs => piece? (kind (read cs)) (read cs) := by
  intro cs k
  dsimp only
  constructor
  · intro hcs
    have hread : read cs = [] := by
      cases hr : read cs with
      | nil => rfl
      | cons c ds => simp [hr, Lexicon.piece?] at hcs
    rw [h cs k (by simp [hread]), hcs]
  · intro kind' run hcs hk
    obtain ⟨he, -⟩ := piece?_eq_some hcs
    cases he
    rw [h cs k hk, hcs]

/-- The longest word is found without looking behind it. -/
theorem longest?_local (ws : List String) : ReadsLocally fun cs => (longest? cs ws).getD [] := by
  intro cs k hk
  dsimp only at hk ⊢
  cases h : longest? cs ws with
  | none => rw [longest?_take_eq_none k h]
  | some run =>
    rw [h, Option.getD_some] at hk
    rw [longest?_take h hk]

theorem delimiter_local (l : Lexicon) : FindsLocally fun cs =>
    (longest? cs l.delimiters).map fun run => (TokenKind.delimiter, run) := by
  intro cs k
  dsimp only
  constructor
  · intro h
    rw [Option.map_eq_none_iff] at h ⊢
    exact longest?_take_eq_none k h
  · intro kind run h hk
    obtain ⟨run, hlong, he⟩ := Option.map_eq_some_iff.mp h
    cases he
    rw [longest?_take hlong hk, Option.map_some]

/-- A piece is found without looking behind it. -/
theorem next?_local (l : Lexicon) : FindsLocally l.next? := by
  have hblank : ReadsLocally (blankRun false) := blankRun_take false
  have hlocal := (hblank.piece? fun _ => .blank).orElse
    ((newlineRun_local.piece? fun _ => .newline).orElse
    ((numberRun_local.piece? fun _ => .number).orElse
    (((longest?_local l.operators).piece? fun _ => .operator).orElse
    ((wordRun_local.piece? l.wordKind).orElse (delimiter_local l)))))
  intro cs k
  simpa only [next?, Option.orElse_eq_orElse, Option.orElse_eq_or] using hlocal cs k

end Lexicon

end Abacus
