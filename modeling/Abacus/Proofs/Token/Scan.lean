import Abacus.Proofs.Number.Numeral
import Abacus.Token.Scan

/-!
# What a scan returns

`Lexicon.Fits l t`: the text of the token is one that the scanner makes tokens of its kind from.
Every token list that a scan returns ends with the end of the text, and before that there are only
tokens that fit and no blanks (`Lexicon.tokens_ok`).
-/

namespace Abacus

/-- A word: a letter or an underscore, then letters, digits and underscores. -/
def IsWord (s : String) : Prop :=
  ∃ c cs, s.toList = c :: cs ∧ Lexicon.isWordStart c ∧ ∀ d ∈ cs, Lexicon.isWordPart d

namespace Lexicon

variable {l : Lexicon} {cs run : List Char} {kind : TokenKind}

/-! ## One piece -/

theorem piece?_eq_some (h : piece? kind cs = some r) : r = (kind, cs) ∧ cs ≠ [] := by
  cases cs with
  | nil => cases h
  | cons c cs => cases h; exact ⟨rfl, by simp⟩

theorem all_digits (cs : List Char) : ∀ c ∈ cs.takeWhile Char.isDigit, c.isDigit :=
  List.all_eq_true.mp List.all_takeWhile

theorem numberRun_isNumeral (h : numberRun cs ≠ []) : Number.IsNumeral (numberRun cs) := by
  rw [numberRun] at h ⊢
  by_cases hw : cs.takeWhile Char.isDigit = []
  · simp [hw] at h
  · simp only [List.isEmpty_iff, hw, ↓reduceIte]
    split
    · rename_i rest _
      exact ⟨_, _, rfl, hw, all_digits cs, .inr ⟨_, rfl, all_digits rest⟩⟩
    · exact ⟨_, [], (List.append_nil _).symm, hw, all_digits cs, .inl rfl⟩

theorem wordRun_isWord (h : wordRun cs ≠ []) : IsWord (String.ofList (wordRun cs)) := by
  cases cs with
  | nil => exact absurd rfl h
  | cons c cs =>
    rw [wordRun] at h ⊢
    by_cases hc : isWordStart c
    · rw [if_pos hc]
      exact ⟨c, _, String.toList_ofList, hc, List.all_eq_true.mp List.all_takeWhile⟩
    · rw [if_neg hc] at h
      exact absurd rfl h

/-- A text that is one run of word characters is a word. -/
theorem isWord_of_wordRun {s : String} (hne : wordRun s.toList ≠ [])
    (h : wordRun s.toList = s.toList) : IsWord s := by
  have hword := wordRun_isWord hne
  rwa [h, String.ofList_toList] at hword

/-- The text is one that the scanner makes tokens of the kind from. -/
def Fits (l : Lexicon) (kind : TokenKind) (text : String) : Prop :=
  match kind with
  | .number => Number.IsNumeral text.toList
  | .identifier => IsWord text ∧ text ∉ l.keywords
  | .keyword => IsWord text ∧ text ∈ l.keywords
  | .endOfText | .other => False
  | .operator | .delimiter | .blank | .newline => True

/-- The end of the text is no piece of it. -/
theorem Fits.not_end {t : Token} (h : l.Fits t.kind t.text) : t.isEnd = false := by
  apply Bool.eq_false_iff.mpr
  intro hend
  rw [show t.kind = .endOfText by simpa [Token.isEnd] using hend] at h
  exact h

theorem fits_wordKind (h : wordRun cs ≠ []) :
    l.Fits (l.wordKind (wordRun cs)) (String.ofList (wordRun cs)) := by
  unfold wordKind
  split
  · rename_i hk; exact ⟨wordRun_isWord h, hk⟩
  · rename_i hk; exact ⟨wordRun_isWord h, hk⟩

/-- The kinds are tried in their order. -/
theorem next?_cases (h : l.next? cs = some (kind, run)) :
    (kind = .blank ∧ run = blankRun false cs ∧ run ≠ []) ∨
    (kind = .newline ∧ run = newlineRun cs ∧ run ≠ []) ∨
    (kind = .number ∧ run = numberRun cs ∧ run ≠ []) ∨ kind = .operator ∨
    (kind = l.wordKind (wordRun cs) ∧ run = wordRun cs ∧ run ≠ []) ∨ kind = .delimiter := by
  simp only [next?, Option.orElse_eq_orElse, Option.orElse_eq_or, Option.or_eq_some_iff] at h
  rcases h with h | ⟨-, h | ⟨-, h | ⟨-, h | ⟨-, h | ⟨-, h⟩⟩⟩⟩⟩
  · cases (piece?_eq_some h).1
    exact .inl ⟨rfl, rfl, (piece?_eq_some h).2⟩
  · cases (piece?_eq_some h).1
    exact .inr (.inl ⟨rfl, rfl, (piece?_eq_some h).2⟩)
  · cases (piece?_eq_some h).1
    exact .inr (.inr (.inl ⟨rfl, rfl, (piece?_eq_some h).2⟩))
  · cases (piece?_eq_some h).1
    exact .inr (.inr (.inr (.inl rfl)))
  · cases (piece?_eq_some h).1
    exact .inr (.inr (.inr (.inr (.inl ⟨rfl, rfl, (piece?_eq_some h).2⟩))))
  · obtain ⟨_, -, he⟩ := Option.map_eq_some_iff.mp h
    cases he
    exact .inr (.inr (.inr (.inr (.inr rfl))))

theorem fits_of_next? (h : l.next? cs = some (kind, run)) : l.Fits kind (String.ofList run) := by
  rcases next?_cases h with ⟨rfl, -⟩ | ⟨rfl, -⟩ | ⟨rfl, rfl, hne⟩ | rfl | ⟨rfl, rfl, hne⟩ | rfl
  · trivial
  · trivial
  · unfold Fits
    rw [String.toList_ofList]
    exact numberRun_isNumeral hne
  · trivial
  · exact fits_wordKind hne
  · trivial

/-! ## All pieces -/

/-- Each piece is what the scanner finds at its position. -/
theorem next?_of_mem_scanFrom (pos : Nat) (cs : List Char) :
    ∀ t ∈ (l.scanFrom pos cs).pieces,
      ∃ i, t.pos = pos + i ∧ l.next? (cs.drop i) = some (t.kind, t.text.toList) := by
  fun_induction l.scanFrom pos cs with
  | case1 => simp
  | case2 => simp
  | case3 => simp
  | case4 pos c rest kind d ds hnext scan ih =>
    intro t ht
    rcases List.mem_cons.mp ht with rfl | ht
    · exact ⟨0, rfl, by rw [String.toList_ofList, List.drop_zero, hnext]⟩
    · obtain ⟨i, hpos, ht⟩ := ih t ht
      rw [List.drop_drop] at ht
      exact ⟨ds.length + i + 1, by omega, ht⟩

theorem fits_of_mem_scanFrom (pos : Nat) (cs : List Char) :
    ∀ t ∈ (l.scanFrom pos cs).pieces, l.Fits t.kind t.text := by
  intro t ht
  obtain ⟨i, hpos, hnext⟩ := next?_of_mem_scanFrom pos cs t ht
  have hfits := fits_of_next? hnext
  rwa [String.ofList_toList] at hfits

theorem mem_of_mem_dropLayout {t : Token} {depth : Nat} {ts : List Token}
    (h : t ∈ dropLayout depth ts) : t ∈ ts ∧ t.kind ≠ .blank := by
  induction ts generalizing depth with
  | nil => cases h
  | cons u us ih =>
    have hcons : ∀ {d}, t ∈ dropLayout d us → t ∈ u :: us ∧ t.kind ≠ .blank :=
      fun h => ⟨List.mem_cons_of_mem u (ih h).1, (ih h).2⟩
    unfold dropLayout at h
    split at h
    · exact hcons h
    · rename_i hk
      have hhead : ∀ {d}, t ∈ u :: dropLayout d us → t ∈ u :: us ∧ t.kind ≠ .blank := by
        intro d h
        rcases List.mem_cons.mp h with rfl | h
        · exact ⟨List.mem_cons_self, hk⟩
        · exact hcons h
      split at h
      · split at h
        · exact hhead h
        · exact hcons h
      · split at h
        · exact hhead h
        · split at h
          · exact hhead h
          · exact hhead h

/-- A scan that succeeds returns tokens that fit, none of them blank, and the end of the text. -/
theorem tokens_ok {source : String} {ts : List Token} (h : l.tokens source = .ok ts) :
    ∃ body, ts = body ++ [Token.endAt source.length] ∧
      ∀ t ∈ body, l.Fits t.kind t.text ∧ t.kind ≠ .blank := by
  unfold tokens at h
  split at h
  · rename_i pieces hscan
    cases h
    refine ⟨_, rfl, fun t ht => ?_⟩
    obtain ⟨ht, hk⟩ := mem_of_mem_dropLayout ht
    refine ⟨fits_of_mem_scanFrom 0 source.toList t ?_, hk⟩
    unfold scan at hscan
    rwa [hscan]
  · cases h

/-! ## Texts without layout -/

/-- None of the characters is a blank or a newline or starts a comment. -/
def NoLayout (cs : List Char) : Prop := ∀ c ∈ cs, isBlank c = false ∧ c ≠ '#' ∧ c ≠ '\n'

theorem NoLayout.kind_ne (h : NoLayout cs) (hnext : l.next? cs = some (kind, run)) :
    kind ≠ .blank ∧ kind ≠ .newline := by
  have hblank : blankRun false cs = [] := by
    cases cs with
    | nil => rfl
    | cons c cs =>
      obtain ⟨hb, hc, -⟩ := h c List.mem_cons_self
      simp [blankRun, hb, hc]
  have hnewline : newlineRun cs = [] := by
    cases cs with
    | nil => rfl
    | cons c cs =>
      obtain ⟨-, -, hn⟩ := h c List.mem_cons_self
      rw [newlineRun]
      intro _ he
      cases he
      exact hn rfl
  rcases next?_cases hnext with ⟨-, rfl, hne⟩ | ⟨-, rfl, hne⟩ | ⟨rfl, -⟩ | rfl | ⟨rfl, -⟩ | rfl
  · exact absurd hblank hne
  · exact absurd hnewline hne
  · simp
  · simp
  · unfold wordKind
    split <;> simp
  · simp

theorem NoLayout.pieces (pos : Nat) (h : NoLayout cs) :
    ∀ t ∈ (l.scanFrom pos cs).pieces, t.kind ≠ .blank ∧ t.kind ≠ .newline := by
  fun_induction l.scanFrom pos cs with
  | case1 => simp
  | case2 => simp
  | case3 => simp
  | case4 pos c rest kind d ds hnext scan ih =>
    intro t ht
    rcases List.mem_cons.mp ht with rfl | ht
    · exact h.kind_ne hnext
    · exact ih (fun c hc => h c (List.mem_cons_of_mem _ (List.drop_subset _ _ hc))) t ht

theorem dropLayout_eq_self {ts : List Token}
    (h : ∀ t ∈ ts, t.kind ≠ .blank ∧ t.kind ≠ .newline) (depth : Nat) :
    dropLayout depth ts = ts := by
  induction ts generalizing depth with
  | nil => rfl
  | cons t ts ih =>
    obtain ⟨⟨hb, hn⟩, hts⟩ := List.forall_mem_cons.mp h
    simp only [dropLayout, hb, hn, ih hts, ↓reduceIte, ite_self]

theorem numberRun_prefix (cs : List Char) : numberRun cs <+: cs := by
  have hsplit := List.takeWhile_append_dropWhile (p := Char.isDigit) (l := cs)
  rw [numberRun]
  split
  · exact List.nil_prefix
  · split
    · rename_i rest hrest
      refine ⟨rest.dropWhile Char.isDigit, ?_⟩
      rw [List.append_assoc, List.cons_append, List.takeWhile_append_dropWhile, ← hrest, hsplit]
    · exact List.takeWhile_prefix _

theorem eq_nil_of_scanFrom {pos : Nat} (h : l.scanFrom pos cs = ⟨[], none⟩) : cs = [] := by
  cases cs with
  | nil => rfl
  | cons c rest =>
    unfold scanFrom at h
    split at h
    · simp at h
    · simp at h
    · simp at h

theorem eq_of_scanFrom_number {pos : Nat} {t : Token} (h : l.scanFrom pos cs = ⟨[t], none⟩)
    (hk : t.kind = .number) : t.text.toList = cs := by
  cases cs with
  | nil => rw [scanFrom] at h; simp at h
  | cons c rest =>
    unfold scanFrom at h
    split at h
    · simp at h
    · simp at h
    · rename_i kind d ds hnext
      simp only [Scan.mk.injEq, List.cons.injEq] at h
      obtain ⟨⟨rfl, hpieces⟩, hfailure⟩ := h
      have hkind : kind = .number := hk
      -- Of the six ways a piece can start, only one yields a number.
      have hrun : d :: ds = numberRun (c :: rest) := by
        rcases next?_cases hnext with ⟨rfl, -⟩ | ⟨rfl, -⟩ | ⟨-, h, -⟩ | rfl | ⟨rfl, -⟩ | rfl
        · cases hkind
        · cases hkind
        · exact h
        · cases hkind
        · unfold wordKind at hkind
          split at hkind <;> cases hkind
        · cases hkind
      have hscan : l.scanFrom (pos + ds.length + 1) (rest.drop ds.length) = ⟨[], none⟩ := by
        rw [← hpieces, ← hfailure]
      have hrest := List.drop_eq_nil_iff.mp (eq_nil_of_scanFrom hscan)
      have hprefix := numberRun_prefix (c :: rest)
      rw [← hrun] at hprefix
      rw [String.toList_ofList]
      apply hprefix.eq_of_length_le
      simp only [List.length_cons]
      omega

/-- Where a text without layout is scanned as one number, that number is the whole text. -/
theorem NoLayout.text_eq {source : String} {t e : Token} (h : NoLayout source.toList)
    (hts : l.tokens source = .ok [t, e]) (hk : t.kind = .number) : t.text = source := by
  unfold tokens at hts
  split at hts
  · rename_i pieces hscan
    unfold scan at hscan
    have hpieces := h.pieces (l := l) 0
    rw [hscan] at hpieces
    rw [dropLayout_eq_self hpieces] at hts
    obtain ⟨rfl, -⟩ := List.append_inj' (Except.ok.inj hts : pieces ++ [_] = [t] ++ [e]) rfl
    exact String.toList_inj.mp (eq_of_scanFrom_number hscan hk)
  · cases hts

end Lexicon

end Abacus
