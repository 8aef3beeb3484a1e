import Abacus.Proofs.Token.Pieces
import Mathlib.Data.List.MinMax

/-!
# The order of words

A notation lists its words, but only which words they are counts. Two words of one length that
both start a text are the same word, and so no tie is left to decide where the longest word is
looked for.

* `Lexicon.find?_longestFirst`, `Lexicon.argmax_length`: the first word that fits among words with
  the longest in front, and any longest one of the words that fit, are the same.
* `Lexicon.scans_alike`: the order of the words changes nothing, and operators and delimiters are
  the longest ones that fit.
-/

namespace Abacus

namespace Lexicon

variable {l l' : Lexicon} {cs : List Char} {ws ws' : List String}

/-- The words are the same, in some order and as often as may be. -/
structure SameWords (l l' : Lexicon) : Prop where
  keywords : ∀ w, w ∈ l.keywords ↔ w ∈ l'.keywords
  operators : ∀ w, w ∈ l.operators ↔ w ∈ l'.operators
  delimiters : ∀ w, w ∈ l.delimiters ↔ w ∈ l'.delimiters

/-! ## Ways to find the longest word -/

theorem longest?_congr (h : ∀ w, w ∈ ws ↔ w ∈ ws') (cs : List Char) :
    longest? cs ws = longest? cs ws' := by
  ext run
  simp only [longest?_eq_some_iff, h]

/-- Where the longest words are in front, the first one that fits is the longest one that fits. -/
theorem find?_longestFirst (hws : ws.Pairwise fun v w => w.length ≤ v.length) (cs : List Char) :
    (ws.find? fun w => w.toList.isPrefixOf cs).map String.toList = longest? cs ws := by
  cases hfind : ws.find? fun w => w.toList.isPrefixOf cs with
  | none =>
    refine (longest?_eq_none_iff.mpr fun w hw hcs => ?_).symm
    exact List.find?_eq_none.mp hfind w hw (List.isPrefixOf_iff_prefix.mpr hcs)
  | some w =>
    obtain ⟨hw, before, behind, rfl, hbefore⟩ := List.find?_eq_some_iff_append.mp hfind
    refine (longest?_eq_some_iff.mpr ⟨⟨w, by simp, rfl⟩, List.isPrefixOf_iff_prefix.mp hw, ?_⟩).symm
    intro u hu hcs
    rw [String.length_toList]
    have hbehind := (List.pairwise_append.mp hws).2.1
    rcases List.mem_append.mp hu with hu | hu
    · have hnot := hbefore u hu
      rw [List.isPrefixOf_iff_prefix.mpr hcs] at hnot
      cases hnot
    · rcases List.mem_cons.mp hu with rfl | hu
      · exact le_rfl
      · exact List.rel_of_pairwise_cons hbehind hu

/-- A longest one of all words that fit. -/
theorem argmax_length (ws : List String) (cs : List Char) :
    ((ws.filter fun w => w.toList.isPrefixOf cs).argmax String.length).map String.toList =
      longest? cs ws := by
  cases hmax : (ws.filter fun w => w.toList.isPrefixOf cs).argmax String.length with
  | none =>
    refine (longest?_eq_none_iff.mpr fun w hw hcs => ?_).symm
    have hnone := List.filter_eq_nil_iff.mp (List.argmax_eq_none.mp hmax) w hw
    exact hnone (List.isPrefixOf_iff_prefix.mpr hcs)
  | some w =>
    obtain ⟨hw, hlongest, -⟩ := List.argmax_eq_some_iff.mp hmax
    obtain ⟨hw, hcs⟩ := List.mem_filter.mp hw
    refine (longest?_eq_some_iff.mpr ⟨⟨w, hw, rfl⟩, List.isPrefixOf_iff_prefix.mp hcs, ?_⟩).symm
    intro u hu hcs
    rw [String.length_toList]
    exact hlongest u (List.mem_filter.mpr ⟨hu, List.isPrefixOf_iff_prefix.mpr hcs⟩)

/-! ## Scans -/

theorem SameWords.next?_eq (h : l.SameWords l') (cs : List Char) : l.next? cs = l'.next? cs := by
  have hword : ∀ word, l.wordKind word = l'.wordKind word := by
    intro word
    unfold wordKind
    simp only [h.keywords]
  unfold next?
  rw [hword, longest?_congr h.operators, longest?_congr h.delimiters]

/-- A scan depends on what is found at single places. -/
theorem scanFrom_congr (h : ∀ cs, l.next? cs = l'.next? cs) (pos : Nat) (cs : List Char) :
    l.scanFrom pos cs = l'.scanFrom pos cs := by
  fun_induction l.scanFrom pos cs with
  | case1 => rw [scanFrom]
  | case2 pos c rest hnext => rw [scanFrom, ← h, hnext]
  | case3 pos c rest kind hnext => rw [scanFrom, ← h, hnext]
  | case4 pos c rest kind d ds hnext scan ih =>
    rw [scanFrom, ← h, hnext]
    simp only [scan, ih]

theorem SameWords.scan_eq (h : l.SameWords l') (source : String) : l.scan source = l'.scan source :=
  scanFrom_congr h.next?_eq 0 source.toList

/-- At its position in the text the token is one of the words, and no longer one of them stands
there. -/
structure LongestAt (cs : List Char) (ws : List String) (t : Token) : Prop where
  mem : t.text ∈ ws
  starts : t.text.toList <+: cs.drop t.pos
  longest : ∀ w ∈ ws, w.toList <+: cs.drop t.pos → w.length ≤ t.text.length

theorem IsLongest.longestAt {t : Token} {rest : List Char}
    (hcs : cs.drop t.pos = t.text.toList ++ rest) (h : IsLongest ws rest t.text.toList) :
    LongestAt cs ws t := by
  obtain ⟨⟨w, hw, htext⟩, hlongest⟩ := h
  refine ⟨String.toList_injective htext ▸ hw, ⟨rest, hcs.symm⟩, fun w hw hstarts => ?_⟩
  rw [hcs] at hstarts
  rw [← String.length_toList (s := t.text)]
  exact hlongest w hw hstarts

/-- The operators and delimiters among the pieces of a scan, failed or not, are the longest ones. -/
theorem longestAt_of_mem_scan {source : String} {t : Token} (ht : t ∈ (l.scan source).pieces) :
    (t.kind = .operator → LongestAt source.toList l.operators t) ∧
      (t.kind = .delimiter → LongestAt source.toList l.delimiters t) := by
  obtain ⟨i, hpos, hnext⟩ := next?_of_mem_scanFrom 0 source.toList t ht
  rw [Nat.zero_add] at hpos
  subst hpos
  obtain ⟨rest, hcs, hmax⟩ := maximal_of_next? hnext
  constructor
  · intro hk
    rw [hk] at hmax
    exact IsLongest.longestAt hcs hmax
  · intro hk
    rw [hk] at hmax
    exact IsLongest.longestAt hcs hmax

theorem mem_scan_of_mem_tokens {source : String} {ts : List Token} {t : Token}
    (h : l.tokens source = .ok ts) (ht : t ∈ ts) :
    t ∈ (l.scan source).pieces ∨ t = Token.endAt source.length := by
  unfold tokens at h
  split at h
  · rename_i pieces hscan
    cases h
    rw [hscan]
    exact (List.mem_append.mp ht).imp (fun ht => (mem_of_mem_dropLayout ht).1) List.mem_singleton.mp
  · cases h

/-- The order of the words of a notation changes nothing: not the pieces of a scan and their
positions, and not how it fails. The operators and delimiters that are found, also before a scan
fails, are the longest ones that fit. And the longest word is found in any way of going through
the words: as one of the longest of all that fit, or as the first that fits if longer ones come
first. -/
theorem scans_alike :
    (∀ l l' : Lexicon, l.SameWords l' → ∀ source,
      l.scan source = l'.scan source ∧ l.tokens source = l'.tokens source) ∧
    (∀ (l : Lexicon) (source : String) (t : Token),
      (t ∈ (l.scan source).pieces ∨ ∃ ts, l.tokens source = .ok ts ∧ t ∈ ts) →
      (t.kind = .operator → LongestAt source.toList l.operators t) ∧
        (t.kind = .delimiter → LongestAt source.toList l.delimiters t)) ∧
    ∀ (ws ws' : List String) (cs : List Char), (∀ w, w ∈ ws ↔ w ∈ ws') →
      ((ws.filter fun w => w.toList.isPrefixOf cs).argmax String.length).map String.toList =
        longest? cs ws' ∧
      ((ws.Pairwise fun v w => w.length ≤ v.length) →
        (ws.find? fun w => w.toList.isPrefixOf cs).map String.toList = longest? cs ws') := by
  refine ⟨fun l l' h source => ⟨h.scan_eq source, ?_⟩, fun l source t ht => ?_, ?_⟩
  · unfold tokens
    rw [h.scan_eq]
  · rcases ht with ht | ⟨ts, hts, ht⟩
    · exact longestAt_of_mem_scan ht
    · rcases mem_scan_of_mem_tokens hts ht with ht | rfl
      · exact longestAt_of_mem_scan ht
      · exact ⟨nofun, nofun⟩
  · intro ws ws' cs hsame
    rw [← longest?_congr hsame]
    exact ⟨argmax_length ws cs, fun hws => find?_longestFirst hws cs⟩

/-- The words of each length are turned around, and one comes twice. -/
theorem scans_alike_turned :
    let l : Lexicon := ⟨["do"], ["**=", "<=", "**", "<", "*"], ["[", "[[", "]"]⟩
    let l' : Lexicon := ⟨["do", "do"], ["**", "*", "<=", "<", "*", "**="], ["]", "[[", "["]⟩
    let ts : List Token := [⟨.delimiter, "[[", 0⟩, ⟨.identifier, "x", 2⟩, ⟨.operator, "**=", 3⟩,
      ⟨.operator, "*", 6⟩, ⟨.operator, "<=", 7⟩, ⟨.number, "1", 9⟩, ⟨.delimiter, "[", 10⟩,
      Token.endAt 11]
    l.SameWords l' ∧ l.tokens "[[x**=*<=1[" = .ok ts ∧ l'.tokens "[[x**=*<=1[" = .ok ts ∧
      LongestAt "[[x**=*<=1[".toList l.operators ⟨.operator, "**=", 3⟩ ∧
      LongestAt "[[x**=*<=1[".toList l'.delimiters ⟨.delimiter, "[", 10⟩ ∧
      ∀ cs, (l.operators.find? fun w => w.toList.isPrefixOf cs).map String.toList =
        longest? cs l'.operators := by
  intro l l' ts
  have hsame : l.SameWords l' := by
    constructor <;> simp [l, l'] <;> tauto
  have hts : l.tokens "[[x**=*<=1[" = .ok ts := by decide +kernel
  have hts' := (scans_alike.1 l l' hsame "[[x**=*<=1[").2.symm.trans hts
  exact ⟨hsame, hts, hts', (scans_alike.2.1 l _ _ (.inr ⟨ts, hts, by decide⟩)).1 rfl,
    (scans_alike.2.1 l' _ _ (.inr ⟨ts, hts', by decide⟩)).2 rfl,
    fun cs => (scans_alike.2.2 _ _ cs hsame.operators).2 (by decide)⟩

end Lexicon

end Abacus
