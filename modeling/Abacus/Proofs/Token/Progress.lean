import Abacus.Proofs.Token.Spans

/-!
# How a scan gets on

A scan goes through a text in rounds: at its place it takes the piece that starts there and goes on
behind it. Nothing in that makes it end (`Lexicon.Comes`). It ends because pieces have characters,
and there is one way for a piece to have none: a notation with an empty delimiter, at a place where
nothing else fits (`Lexicon.OnlyEmptyDelimiter`).

* `Lexicon.next?_eq_nil_iff`: an empty piece is found at just those places.
* `Lexicon.Comes.failure_eq`, `Lexicon.halts_or_stalls`: the rounds lead to the end of the text, to
  the character that the scan blames, or to the place where it stalls.
* `Lexicon.progresses_iff`: the rounds get on and end in time unless they come to such a place, and
  from there they go on for ever.
-/

namespace Abacus

namespace Lexicon

variable {l : Lexicon} {cs run : List Char} {kind : TokenKind} {n m pos pos' : Nat}

/-! ## Rounds -/

/-- After `n` rounds the scan of a text comes to the place `pos`. A round takes the piece that
starts at its place, even an empty one. -/
inductive Comes (l : Lexicon) (cs : List Char) : Nat → Nat → Prop
  | start : Comes l cs 0 0
  | take {n pos : Nat} {kind : TokenKind} {run : List Char} (h : Comes l cs n pos)
      (hpos : pos < cs.length) (hrun : l.next? (cs.drop pos) = some (kind, run)) :
      Comes l cs (n + 1) (pos + run.length)

/-- The scan of a text ends after `n` rounds: behind the last character, or at a character that no
piece starts with, in a round that takes none. -/
inductive Halts (l : Lexicon) (cs : List Char) : Nat → Option ScanError → Prop
  | done {n : Nat} (h : l.Comes cs n cs.length) : Halts l cs n none
  | refused {n pos : Nat} {c : Char} (h : l.Comes cs n pos) (hc : cs[pos]? = some c)
      (hnone : l.next? (cs.drop pos) = none) : Halts l cs (n + 1) (some (.unexpectedChar c pos))

/-- An empty delimiter fits at the start of the text, and nothing with a character does. -/
structure OnlyEmptyDelimiter (l : Lexicon) (cs : List Char) : Prop where
  empty : "" ∈ l.delimiters
  blank : blankRun false cs = []
  newline : newlineRun cs = []
  number : numberRun cs = []
  operator : ∀ w ∈ l.operators, w.toList <+: cs → w = ""
  word : wordRun cs = []
  delimiter : ∀ w ∈ l.delimiters, w.toList <+: cs → w = ""

/-- The scan comes to a place in the text where only an empty delimiter fits. -/
def Stalls (l : Lexicon) (cs : List Char) (pos : Nat) : Prop :=
  pos < cs.length ∧ (∃ n, l.Comes cs n pos) ∧ l.OnlyEmptyDelimiter (cs.drop pos)

/-- Every piece that is taken ends behind the place where it starts and within the text, and after
at most as many rounds as the source has characters the scan ends, with the tokens or at a
character. -/
structure Progresses (l : Lexicon) (source : String) : Prop where
  advances : ∀ n pos kind run, l.Comes source.toList n pos → pos < source.length →
    l.next? (source.toList.drop pos) = some (kind, run) →
    pos < pos + run.length ∧ pos + run.length ≤ source.length
  ends : (∃ ts, l.tokens source = .ok ts ∧
      ∃ n ≤ source.length, l.Halts source.toList n none) ∨
    ∃ c pos, l.tokens source = .error (.unexpectedChar c pos) ∧
      ∃ n ≤ source.length, l.Halts source.toList n (some (.unexpectedChar c pos))

/-! ## Empty pieces -/

theorem piece?_eq_none_iff : piece? kind cs = none ↔ cs = [] := by
  cases cs with
  | nil => simp [piece?]
  | cons c cs => simp [piece?]

/-- No word with a character fits. -/
theorem longest?_getD_eq_nil_iff {ws : List String} :
    (longest? cs ws).getD [] = [] ↔ ∀ w ∈ ws, w.toList <+: cs → w = "" := by
  cases hlong : longest? cs ws with
  | none =>
    refine iff_of_true rfl fun w hw hcs => ?_
    exact absurd hcs (longest?_eq_none_iff.mp hlong w hw)
  | some run =>
    obtain ⟨⟨v, hv, rfl⟩, hcs, hmax⟩ := longest?_spec hlong
    rw [Option.getD_some]
    constructor
    · intro hnil w hw hwcs
      have hle := hmax w hw hwcs
      rw [hnil, List.length_nil, Nat.le_zero] at hle
      exact String.length_eq_zero_iff.mp hle
    · intro hempty
      rw [hempty v hv hcs]
      rfl

theorem longest?_eq_nil_iff {ws : List String} :
    longest? cs ws = some [] ↔ "" ∈ ws ∧ ∀ w ∈ ws, w.toList <+: cs → w = "" := by
  rw [← longest?_getD_eq_nil_iff]
  constructor
  · intro h
    obtain ⟨⟨w, hw, hnil⟩, -⟩ := longest?_spec h
    rw [String.toList_eq_nil_iff.mp hnil] at hw
    exact ⟨hw, by rw [h]; rfl⟩
  · rintro ⟨hempty, hnil⟩
    cases hlong : longest? cs ws with
    | none => exact absurd List.nil_prefix (longest?_eq_none_iff.mp hlong "" hempty)
    | some run =>
      rw [hlong, Option.getD_some] at hnil
      rw [hnil]

/-- An empty piece is found where only an empty delimiter fits: every other kind of piece comes
first, and has a character. -/
theorem next?_eq_nil_iff :
    l.next? cs = some (kind, []) ↔ kind = .delimiter ∧ l.OnlyEmptyDelimiter cs := by
  simp only [next?, Option.orElse_eq_orElse, Option.orElse_eq_or, Option.or_eq_some_iff]
  constructor
  · intro h
    rcases h with h | ⟨hblank, h | ⟨hnewline, h | ⟨hnumber, h | ⟨hoperator, h | ⟨hword, h⟩⟩⟩⟩⟩
    · exact absurd rfl (ne_nil_of_piece? h)
    · exact absurd rfl (ne_nil_of_piece? h)
    · exact absurd rfl (ne_nil_of_piece? h)
    · exact absurd rfl (ne_nil_of_piece? h)
    · exact absurd rfl (ne_nil_of_piece? h)
    · obtain ⟨run, hlong, he⟩ := Option.map_eq_some_iff.mp h
      cases he
      obtain ⟨hempty, hdelimiter⟩ := longest?_eq_nil_iff.mp hlong
      exact ⟨rfl, hempty, piece?_eq_none_iff.mp hblank, piece?_eq_none_iff.mp hnewline,
        piece?_eq_none_iff.mp hnumber,
        longest?_getD_eq_nil_iff.mp (piece?_eq_none_iff.mp hoperator),
        piece?_eq_none_iff.mp hword, hdelimiter⟩
  · rintro ⟨rfl, h⟩
    refine .inr ⟨piece?_eq_none_iff.mpr h.blank, .inr ⟨piece?_eq_none_iff.mpr h.newline,
      .inr ⟨piece?_eq_none_iff.mpr h.number, .inr ⟨?_, .inr ⟨piece?_eq_none_iff.mpr h.word, ?_⟩⟩⟩⟩⟩
    · exact piece?_eq_none_iff.mpr (longest?_getD_eq_nil_iff.mpr h.operator)
    · rw [longest?_eq_nil_iff.mpr ⟨h.empty, h.delimiter⟩]
      rfl

/-! ## Where the rounds lead -/

/-- Behind a piece the text goes on, and no piece reaches over its end. -/
theorem drop_of_next? (h : l.next? (cs.drop pos) = some (kind, run)) (hpos : pos ≤ cs.length) :
    cs.drop pos = run ++ cs.drop (pos + run.length) ∧ pos + run.length ≤ cs.length := by
  obtain ⟨rest, hcs, -⟩ := maximal_of_next? h
  have hlen := congrArg List.length hcs
  rw [List.length_drop, List.length_append] at hlen
  refine ⟨?_, by omega⟩
  rw [← List.drop_drop, hcs, List.drop_left]

theorem Comes.le_length (h : l.Comes cs n pos) : pos ≤ cs.length := by
  cases h with
  | start => exact Nat.zero_le _
  | take _ hpos hrun => exact (drop_of_next? hrun (Nat.le_of_lt hpos)).2

/-- A scan fails as it does from any place that its rounds come to. An empty piece leaves the place
as it is. -/
theorem Comes.failure_eq (h : l.Comes cs n pos) :
    (l.scanFrom 0 cs).failure = (l.scanFrom pos (cs.drop pos)).failure := by
  induction h with
  | start => rw [List.drop_zero]
  | @take n pos kind run _ hpos hrun ih =>
    rw [ih]
    by_cases hnil : run = []
    · rw [hnil, List.length_nil, Nat.add_zero]
    · obtain ⟨hcs, -⟩ := drop_of_next? hrun (Nat.le_of_lt hpos)
      rw [hcs] at hrun
      rw [hcs, scanFrom_append hnil hrun]

theorem Halts.failure_eq {failure : Option ScanError} (h : l.Halts cs n failure) :
    (l.scanFrom 0 cs).failure = failure := by
  cases h with
  | done h => rw [h.failure_eq, List.drop_length, scanFrom]
  | @refused n pos c h hc hnone =>
    rw [h.failure_eq]
    have hdrop := List.drop_eq_getElem?_toList_append (l := cs) (i := pos)
    rw [hc, Option.toList_some, List.singleton_append] at hdrop
    rw [hdrop] at hnone ⊢
    rw [scanFrom, hnone]

theorem Stalls.failure_eq (h : l.Stalls cs pos) :
    (l.scanFrom 0 cs).failure = some (.stalled pos) := by
  obtain ⟨hpos, ⟨n, hcomes⟩, hempty⟩ := h
  have hnext := next?_eq_nil_iff.mpr ⟨rfl, hempty⟩
  rw [hcomes.failure_eq]
  rw [List.drop_eq_getElem_cons hpos] at hnext ⊢
  rw [scanFrom, hnext]

/-- From any place that the rounds come to they go on to an end of the scan, or to a place where it
stalls. -/
theorem Comes.halts_or_stalls {n pos : Nat} (h : l.Comes cs n pos) :
    (∃ m failure, l.Halts cs m failure) ∨ ∃ pos, l.Stalls cs pos := by
  have hle := h.le_length
  by_cases hend : pos = cs.length
  · exact .inl ⟨n, none, .done (hend ▸ h)⟩
  have hpos : pos < cs.length := Nat.lt_of_le_of_ne hle hend
  cases hnext : l.next? (cs.drop pos) with
  | none => exact .inl ⟨n + 1, _, .refused h (List.getElem?_eq_getElem hpos) hnext⟩
  | some piece =>
    obtain ⟨kind, run⟩ := piece
    cases run with
    | nil => exact .inr ⟨pos, hpos, ⟨n, h⟩, (next?_eq_nil_iff.mp hnext).2⟩
    | cons c run => exact (h.take hpos hnext).halts_or_stalls
termination_by cs.length - pos
decreasing_by simp only [List.length_cons]; omega

theorem halts_or_stalls (l : Lexicon) (cs : List Char) :
    (∃ n failure, l.Halts cs n failure) ∨ ∃ pos, l.Stalls cs pos :=
  Comes.start.halts_or_stalls

/-! ## How many rounds there are -/

/-- Where the scan does not stall, every piece that is taken has a character. -/
theorem Comes.ne_nil (hno : ¬ ∃ pos, l.Stalls cs pos) (h : l.Comes cs n pos)
    (hpos : pos < cs.length) (hrun : l.next? (cs.drop pos) = some (kind, run)) : run ≠ [] := by
  rintro rfl
  exact hno ⟨pos, hpos, ⟨n, h⟩, (next?_eq_nil_iff.mp hrun).2⟩

theorem Comes.rounds_le (hno : ¬ ∃ pos, l.Stalls cs pos) (h : l.Comes cs n pos) : n ≤ pos := by
  induction h with
  | start => exact Nat.le_refl 0
  | take h hpos hrun ih =>
    have hlen := List.length_pos_iff.mpr (h.ne_nil hno hpos hrun)
    omega

theorem Halts.rounds_le {failure : Option ScanError} (hno : ¬ ∃ pos, l.Stalls cs pos)
    (h : l.Halts cs n failure) : n ≤ cs.length := by
  cases h with
  | done h => exact h.rounds_le hno
  | refused h hc _ =>
    have hpos := (List.getElem?_eq_some_iff.mp hc).1
    have hle := h.rounds_le hno
    omega

/-- Before every round there are those that lead to it. -/
theorem Comes.earlier (h : l.Comes cs n pos) (hm : m ≤ n) : ∃ pos', l.Comes cs m pos' := by
  induction h with
  | start =>
    rw [Nat.le_zero.mp hm]
    exact ⟨0, .start⟩
  | @take n pos _ run h hpos hrun ih =>
    rcases Nat.le_succ_iff.mp hm with hle | rfl
    · exact ih hle
    · exact ⟨_, h.take hpos hrun⟩

/-- Where the scan stalls, one round is like the other. -/
theorem Stalls.comes_again (h : l.Stalls cs pos) : ∃ n, ∀ k, l.Comes cs (n + k) pos := by
  obtain ⟨hpos, ⟨n, hcomes⟩, hempty⟩ := h
  refine ⟨n, fun k => ?_⟩
  induction k with
  | zero => exact hcomes
  | succ k ih => exact ih.take hpos (next?_eq_nil_iff.mpr ⟨rfl, hempty⟩)

/-! ## Scans that get on -/

theorem tokens_stalled_iff {source : String} :
    l.tokens source = .error (.stalled pos) ↔ l.Stalls source.toList pos := by
  rw [tokens_error_iff]
  refine ⟨fun h => ?_, fun h => h.failure_eq⟩
  rcases halts_or_stalls l source.toList with ⟨n, failure, hhalts⟩ | ⟨pos', hstalls⟩
  · rw [hhalts.failure_eq] at h
    cases hhalts <;> cases h
  · rw [hstalls.failure_eq] at h
    cases h
    exact hstalls

/-- A scan that does not stall ends in time, with what the rounds lead to. -/
theorem progresses_of_not_stalls {source : String} (hno : ¬ ∃ pos, l.Stalls source.toList pos) :
    l.Progresses source := by
  constructor
  · intro n pos kind run h hpos hrun
    rw [← String.length_toList] at hpos ⊢
    have hlen := List.length_pos_iff.mpr (h.ne_nil hno hpos hrun)
    exact ⟨by omega, (drop_of_next? hrun (Nat.le_of_lt hpos)).2⟩
  · obtain ⟨n, failure, hhalts⟩ := (halts_or_stalls l source.toList).resolve_right hno
    have hle := hhalts.rounds_le hno
    rw [String.length_toList] at hle
    have hfail := hhalts.failure_eq
    cases hhalts with
    | done h =>
      obtain ⟨ts, hts⟩ := tokens_ok_iff.mpr hfail
      exact .inl ⟨ts, hts, n, hle, .done h⟩
    | refused h hc hnone =>
      exact .inr ⟨_, _, tokens_error_iff.mpr hfail, _, hle, .refused h hc hnone⟩

/-- The scan of a source gets on and ends in time exactly when it does not come to a place where
only an empty delimiter fits. There it stalls, and exactly then the rounds go on for ever. -/
theorem progresses_iff (l : Lexicon) (source : String) :
    (l.Progresses source ↔ ¬ ∃ pos, l.Stalls source.toList pos) ∧
    (∀ pos, l.tokens source = .error (.stalled pos) ↔ l.Stalls source.toList pos) ∧
    ((∀ n, ∃ pos, l.Comes source.toList n pos) ↔ ∃ pos, l.Stalls source.toList pos) := by
  refine ⟨⟨?_, progresses_of_not_stalls⟩, fun pos => tokens_stalled_iff, fun h => ?_, ?_⟩
  · rintro h ⟨pos, hstalls⟩
    have hstalled := tokens_stalled_iff.mpr hstalls
    rcases h.ends with ⟨ts, hts, -⟩ | ⟨c, p, hc, -⟩
    · rw [hstalled] at hts
      cases hts
    · rw [hstalled] at hc
      cases hc
  · by_contra hno
    obtain ⟨pos, hcomes⟩ := h (source.toList.length + 1)
    have hrounds := hcomes.rounds_le hno
    have hle := hcomes.le_length
    omega
  · rintro ⟨pos, hstalls⟩ n
    obtain ⟨m, hagain⟩ := hstalls.comes_again
    exact (hagain n).earlier (Nat.le_add_left n m)

/-- In a notation with nothing but an empty delimiter the scan of a character has no end. -/
theorem empty_delimiter_no_progress :
    let l : Lexicon := ⟨[], [], [""]⟩
    (∀ n, l.Comes "$".toList n 0) ∧ (∀ n failure, ¬ l.Halts "$".toList n failure) ∧
      ¬ l.Progresses "$" := by
  intro l
  have hnext : l.next? ("$".toList.drop 0) = some (.delimiter, []) := by decide +kernel
  have hstalls : l.Stalls "$".toList 0 :=
    ⟨by decide, ⟨0, .start⟩, (next?_eq_nil_iff.mp hnext).2⟩
  refine ⟨fun n => ?_, fun n failure hhalts => ?_, fun h => ?_⟩
  · induction n with
    | zero => exact .start
    | succ n ih => exact ih.take (by decide) hnext
  · have hfail := hhalts.failure_eq
    rw [hstalls.failure_eq] at hfail
    cases hhalts <;> cases hfail
  · exact Nat.lt_irrefl _ (h.advances 0 0 _ _ .start (by decide) hnext).1

end Lexicon

end Abacus
