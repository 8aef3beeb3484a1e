import Abacus.Proofs.Token.Cuts
import Abacus.Proofs.Token.Seam

/-!
# Blanks, comments and what they stand between

The scanner cuts off blanks and comments as pieces of their own, many at a time. `Lexicon.Strips`
takes them away one character after the other instead: only whether the text at hand stands in a
comment has to be kept. What is left are the pieces of the scan without the blanks
(`Lexicon.tokens_ok_iff_strips`), and so a blank here or there can be followed through a scan.

* `Lexicon.next?_append_layout`: a piece is not cut off differently for a blank, a newline or a
  comment somewhere behind it.
* `Lexicon.rereads_shown`: tokens that are shown with a blank between any two of them are read again
  as tokens of the same kinds and texts.
-/

namespace Abacus

open Token (contents)

/-- A blank, a newline or the start of a comment. -/
def IsLayout (c : Char) : Prop := Lexicon.isBlank c ∨ c = '#' ∨ c = '\n'

namespace Lexicon

variable {l : Lexicon} {inComment : Bool} {pos : Nat} {cs run rest : List Char} {kind : TokenKind}
  {ts : List Token}

/-! ## Pieces in front of layout -/

theorem NoLayout.not_isLayout (h : NoLayout cs) {c : Char} (hc : c ∈ cs) : ¬ IsLayout c := by
  obtain ⟨hb, hh, hn⟩ := h c hc
  rintro (hb' | hh' | hn')
  · rw [hb] at hb'
    cases hb'
  · exact hh hh'
  · exact hn hn'

/-- The operators and delimiters hold no layout. -/
def LayoutFree (l : Lexicon) : Prop := ∀ w ∈ l.operators ++ l.delimiters, NoLayout w.toList

theorem layoutFree_standard : standard.LayoutFree := by
  have hall : ∀ w ∈ standard.operators ++ standard.delimiters,
      w.toList.all fun c => !isBlank c && c ≠ '#' && c ≠ '\n' := by decide
  intro w hw c hc
  simpa [and_assoc] using List.all_eq_true.mp (hall w hw) c hc

theorem noLayout_of_isWordPart {c : Char} (hc : isWordPart c) :
    isBlank c = false ∧ c ≠ '#' ∧ c ≠ '\n' := by
  have hno : ∀ d ∈ [' ', '\t', '\r', '\x0c', '\x0b'], isWordPart d = false :=
    List.all_iff_forall_prop.mp (by decide)
  refine ⟨Bool.eq_false_iff.mpr fun hb => ?_, ?_, ?_⟩
  · have hmem : c ∈ [' ', '\t', '\r', '\x0c', '\x0b'] := by
      simpa [isBlank, or_assoc] using hb
    rw [hno c hmem] at hc
    cases hc
  · rintro rfl
    exact absurd hc (by decide)
  · rintro rfl
    exact absurd hc (by decide)

/-- A piece that is no blank and no newline holds no layout. -/
theorem noLayout_of_next? (hl : l.LayoutFree) (h : l.next? cs = some (kind, run))
    (hblank : kind ≠ .blank) (hnewline : kind ≠ .newline) : NoLayout run := by
  obtain ⟨rest, -, hmax⟩ := maximal_of_next? h
  have hmax' : l.Maximal rest kind (String.ofList run).toList := by rwa [String.toList_ofList]
  have hall := Fits.forall (fun _ => noLayout_of_isWordPart) (by decide) hl (fits_of_next? h) hmax'
    hblank hnewline
  rwa [String.toList_ofList] at hall

theorem next?_of_blankRun (h : blankRun false cs ≠ []) :
    l.next? cs = some (.blank, blankRun false cs) := by
  have hpiece : ∀ run, run ≠ [] → piece? .blank run = some (.blank, run) := by
    intro run hrun
    cases run with
    | nil => exact absurd rfl hrun
    | cons c cs => rfl
  unfold next?
  rw [hpiece _ h]
  rfl

theorem blankRun_of_next? (h : l.next? cs = some (kind, run)) (hk : kind ≠ .blank) :
    blankRun false cs = [] := by
  by_contra hne
  rw [next?_of_blankRun hne] at h
  cases h
  exact hk rfl

theorem ne_blank_of_next? (hcs : blankRun false cs = []) (h : l.next? cs = some (kind, run)) :
    kind ≠ .blank := by
  rcases next?_cases h with ⟨-, rfl, hne⟩ | ⟨rfl, -⟩ | ⟨rfl, -⟩ | rfl | ⟨rfl, -⟩ | rfl
  · exact absurd hcs hne
  · simp
  · simp
  · simp
  · unfold wordKind
    split <;> simp
  · simp

theorem run_of_next?_blank (h : l.next? cs = some (.blank, run)) : run = blankRun false cs := by
  have hne : blankRun false cs ≠ [] := fun hcs => ne_blank_of_next? hcs h rfl
  rw [next?_of_blankRun hne] at h
  cases h
  rfl

/-- Whether a text starts with a blank shows in its first character. -/
theorem blankRun_append_eq_nil (hne : cs ≠ []) (h : blankRun false cs = []) (rest : List Char) :
    blankRun false (cs ++ rest) = [] := by
  cases cs with
  | nil => exact absurd rfl hne
  | cons c cs =>
    rw [List.cons_append]
    unfold blankRun at h ⊢
    split_ifs at h ⊢
    · rfl
    · rfl

/-- A piece that is no blank is cut off in the same way if there is layout behind it. -/
theorem next?_append_layout (hl : l.LayoutFree) (hne : cs ≠ []) (hk : kind ≠ .blank)
    (h : l.next? cs = some (kind, run)) {c : Char} (hc : IsLayout c) (rest : List Char) :
    l.next? (cs ++ c :: rest) = some (kind, run) := by
  obtain ⟨hnone, hsome⟩ := next?_local l (cs ++ c :: rest) cs.length
  rw [List.take_left, h] at hnone hsome
  cases h' : l.next? (cs ++ c :: rest) with
  | none => cases hnone h'
  | some piece =>
    obtain ⟨kind', run'⟩ := piece
    refine (hsome kind' run' h' ?_).symm
    by_contra hlong
    -- A longer piece would hold the layout, and would neither be a blank nor a newline.
    obtain ⟨rest', hcs, hmax⟩ := maximal_of_next? h'
    have hprefix : cs ++ [c] <+: run' := by
      refine List.prefix_of_prefix_length_le ⟨rest, by simp⟩ ⟨rest', hcs.symm⟩ ?_
      simp only [List.length_append, List.length_singleton]
      omega
    have hmem : c ∈ run' := hprefix.subset (by simp)
    have hempty := blankRun_append_eq_nil hne (blankRun_of_next? h hk) (c :: rest)
    by_cases hnewline : kind' = .newline
    · rw [hnewline] at hmax
      have hlen : run'.length = 1 := congrArg List.length (show run' = ['\n'] from hmax)
      have hpos := List.length_pos_iff.mpr hne
      omega
    · have hblank := ne_blank_of_next? hempty h'
      exact (noLayout_of_next? hl h' hblank hnewline).not_isLayout hmem hc

/-! ## Stripping a text of its blanks and comments -/

/-- From `pos` on, the text consists of the tokens `ts`, none of them blank, with blanks and
comments around them. A text `inComment` starts in a comment, which goes on up to its first
newline. -/
inductive Strips (l : Lexicon) : Bool → Nat → List Char → List Token → Prop
  | nil {inComment : Bool} {pos : Nat} : Strips l inComment pos [] []
  | blank {pos : Nat} {c : Char} {cs : List Char} {ts : List Token} (hc : isBlank c)
      (h : Strips l false (pos + 1) cs ts) : Strips l false pos (c :: cs) ts
  | hash {pos : Nat} {cs : List Char} {ts : List Token} (h : Strips l true (pos + 1) cs ts) :
      Strips l false pos ('#' :: cs) ts
  | comment {pos : Nat} {c : Char} {cs : List Char} {ts : List Token} (hc : c ≠ '\n')
      (h : Strips l true (pos + 1) cs ts) : Strips l true pos (c :: cs) ts
  | lineEnd {pos : Nat} {cs : List Char} {ts : List Token}
      (h : Strips l false pos ('\n' :: cs) ts) : Strips l true pos ('\n' :: cs) ts
  | piece {pos : Nat} {kind : TokenKind} {run cs : List Char} {ts : List Token}
      (hk : kind ≠ .blank) (hne : run ≠ []) (hnext : l.next? (run ++ cs) = some (kind, run))
      (h : Strips l false (pos + run.length) cs ts) :
      Strips l false pos (run ++ cs) (⟨kind, String.ofList run, pos⟩ :: ts)

theorem Strips.eq_nil (h : l.Strips inComment pos [] ts) : ts = [] := by
  generalize hcs : ([] : List Char) = cs at h
  cases h with
  | nil => rfl
  | blank | hash | comment | lineEnd => cases hcs
  | piece _ hne => exact absurd (List.append_eq_nil_iff.mp hcs.symm).1 hne

/-- The blanks and comments at the start of a text are taken away one character at a time. -/
theorem Strips.of_blankRun
    (h : l.Strips false (pos + (blankRun inComment cs).length)
      (cs.drop (blankRun inComment cs).length) ts) : l.Strips inComment pos cs ts := by
  induction cs generalizing inComment pos with
  | nil =>
    rw [List.drop_nil] at h
    rw [h.eq_nil]
    exact .nil
  | cons c cs ih =>
    -- Each character of the run is accounted for by a rule of its own, which goes on with the rest
    -- of the run in the state the character leaves.
    have hnext : ∀ {inComment'}, l.Strips false (pos + (c :: blankRun inComment' cs).length)
        ((c :: cs).drop (c :: blankRun inComment' cs).length) ts →
        l.Strips inComment' (pos + 1) cs ts := by
      intro inComment' h
      rw [List.length_cons, List.drop_succ_cons, Nat.add_comm _ 1, ← Nat.add_assoc] at h
      exact ih h
    unfold blankRun at h
    split at h
    · rename_i hn
      subst hn
      -- A line end closes the comment if there is one; outside of a comment it ends the run.
      cases inComment with
      | true => exact .lineEnd h
      | false => exact h
    · rename_i hn
      split at h
      · rename_i hcomment
        cases inComment with
        | true => exact .comment hn (hnext h)
        | false =>
          obtain rfl : c = '#' := by simpa using hcomment
          exact .hash (hnext h)
      · rename_i hcomment
        obtain rfl : inComment = false := by
          cases inComment with
          | true => exact absurd (Bool.true_or _) hcomment
          | false => rfl
        split at h
        · rename_i hb
          exact .blank hb (hnext h)
        · exact h

/-- What is left of the pieces of a scan without the blanks. -/
theorem strips_of_scanFrom (pos : Nat) (cs : List Char)
    (h : (l.scanFrom pos cs).failure = none) :
    l.Strips false pos cs (visible (l.scanFrom pos cs).pieces) := by
  fun_induction l.scanFrom pos cs with
  | case1 => exact .nil
  | case2 => cases h
  | case3 => cases h
  | case4 pos c tail kind d ds hnext scan ih =>
    obtain ⟨rest, hcs, -⟩ := maximal_of_next? hnext
    have hscan : scan = l.scanFrom (pos + ds.length + 1) rest := by
      simp only [scan, drop_of_append hcs]
    have hrest := ih h
    rw [drop_of_append hcs, ← hscan, Nat.add_assoc] at hrest
    rw [hcs] at hnext ⊢
    rw [visible_cons]
    split
    · rename_i hk
      cases (show kind = .blank from hk)
      have hrun := run_of_next?_blank hnext
      refine .of_blankRun ?_
      rw [← hrun, List.drop_left]
      exact hrest
    · rename_i hk
      exact .piece hk (List.cons_ne_nil d ds) hnext hrest

/-- The text is scanned to its end, and the pieces that are no blanks are `ts`. -/
def ScansTo (l : Lexicon) (pos : Nat) (cs : List Char) (ts : List Token) : Prop :=
  (l.scanFrom pos cs).failure = none ∧ visible (l.scanFrom pos cs).pieces = ts

theorem ScansTo.piece (hne : run ≠ []) (hnext : l.next? (run ++ rest) = some (kind, run))
    (h : l.ScansTo (pos + run.length) rest ts) :
    l.ScansTo pos (run ++ rest) (visible [⟨kind, String.ofList run, pos⟩] ++ ts) := by
  obtain ⟨hok, hpieces⟩ := h
  unfold ScansTo
  rw [scanFrom_append hne hnext]
  exact ⟨hok, by rw [← hpieces, ← visible_append]; rfl⟩

/-- A scan goes on behind the blanks and comments at the start. -/
theorem ScansTo.of_blankRun (h : l.ScansTo (pos + (blankRun false cs).length)
    (cs.drop (blankRun false cs).length) ts) : l.ScansTo pos cs ts := by
  by_cases hrun : blankRun false cs = []
  · rwa [hrun] at h
  · have hnext := next?_of_blankRun (l := l) hrun
    obtain ⟨rest, hcs, -⟩ := maximal_of_next? hnext
    generalize blankRun false cs = run at *
    rw [hcs, List.drop_left] at h
    rw [hcs] at hnext ⊢
    exact h.piece hrun hnext

/-- Behind the blanks and comments at its start, a text is scanned as it is stripped. -/
theorem Strips.scansTo_behind (h : l.Strips inComment pos cs ts) :
    l.ScansTo (pos + (blankRun inComment cs).length) (cs.drop (blankRun inComment cs).length)
      ts := by
  -- The first character belongs to the run of blanks.
  have hcons : ∀ {inComment inComment' pos c cs ts},
      blankRun inComment (c :: cs) = c :: blankRun inComment' cs →
      l.ScansTo (pos + 1 + (blankRun inComment' cs).length)
        (cs.drop (blankRun inComment' cs).length) ts →
      l.ScansTo (pos + (blankRun inComment (c :: cs)).length)
        ((c :: cs).drop (blankRun inComment (c :: cs)).length) ts := by
    intro inComment inComment' pos c cs ts hrun h
    rwa [hrun, List.length_cons, List.drop_succ_cons, Nat.add_comm _ 1, ← Nat.add_assoc]
  induction h with
  | nil =>
    unfold ScansTo
    rw [List.drop_nil, scanFrom]
    exact ⟨rfl, rfl⟩
  | @blank pos c cs ts hc _ ih =>
    refine hcons ?_ ih
    have hn : c ≠ '\n' := by
      rintro rfl
      exact absurd hc (by decide)
    rw [blankRun, if_neg hn]
    by_cases hh : c = '#'
    · subst hh
      exact absurd hc (by decide)
    · simp [hh, hc]
  | hash _ ih => exact hcons rfl ih
  | comment hc _ ih =>
    refine hcons ?_ ih
    rw [blankRun, if_neg hc]
    rfl
  | lineEnd _ ih => exact ih
  | @piece pos kind run cs ts hk hne hnext _ ih =>
    rw [blankRun_of_next? hnext hk]
    have hpiece := ih.of_blankRun.piece hne hnext
    rwa [visible_single hk] at hpiece

theorem dropLayout_visible (depth : Nat) (ts : List Token) :
    dropLayout depth (visible ts) = dropLayout depth ts := by
  induction ts generalizing depth with
  | nil => rfl
  | cons t ts ih =>
    rw [visible_cons, dropLayout_cons]
    split
    · rename_i hk
      rw [if_pos (.inl hk), ih]
    · rw [dropLayout_cons, ih, ih]

/-- A source has tokens where it is stripped to its end, and the tokens are what is left without the
newlines in parentheses. -/
theorem tokens_ok_iff_strips {source : String} {us : List Token} : l.tokens source = .ok us ↔
    ∃ ts, l.Strips false 0 source.toList ts ∧
      us = dropLayout 0 ts ++ [Token.endAt source.length] := by
  constructor
  · intro h
    have hok := tokens_ok_iff.mp ⟨us, h⟩
    refine ⟨_, strips_of_scanFrom 0 source.toList hok, ?_⟩
    unfold tokens scan at h
    split at h
    · rename_i pieces hscan
      cases h
      rw [hscan, dropLayout_visible]
    · cases h
  · rintro ⟨ts, hts, rfl⟩
    obtain ⟨hok, hpieces⟩ := hts.scansTo_behind.of_blankRun
    unfold tokens scan
    cases hscan : l.scanFrom 0 source.toList with | mk pieces failure =>
    rw [hscan] at hok hpieces
    cases hok
    rw [← hpieces, dropLayout_visible]

/-! ## The tokens that are left -/

/-- Read alone, the text of the token is one piece of the token's kind, and no blank. -/
structure IsPiece (l : Lexicon) (t : Token) : Prop where
  not_blank : t.kind ≠ .blank
  ne_nil : t.text.toList ≠ []
  next? : l.next? t.text.toList = some (t.kind, t.text.toList)

theorem IsPiece.not_end {t : Token} (h : l.IsPiece t) : t.isEnd = false := by
  have hfits := fits_of_next? h.next?
  rw [String.ofList_toList] at hfits
  exact hfits.not_end

theorem Strips.isPiece (h : l.Strips inComment pos cs ts) : ∀ t ∈ ts, l.IsPiece t := by
  induction h with
  | nil => exact fun t ht => by cases ht
  | blank _ _ ih => exact ih
  | hash _ ih => exact ih
  | comment _ _ ih => exact ih
  | lineEnd _ ih => exact ih
  | @piece pos kind run cs ts hk hne hnext _ ih =>
    refine List.forall_mem_cons.mpr ⟨⟨hk, ?_, ?_⟩, ih⟩
    · rwa [String.toList_ofList]
    · have halone := (next?_local l (run ++ cs) run.length).2 kind run hnext le_rfl
      rw [List.take_left] at halone
      rwa [String.toList_ofList]

/-- Positions play no part in what is left. -/
theorem Strips.moved (h : l.Strips inComment pos cs ts) (pos' : Nat) :
    ∃ us, l.Strips inComment pos' cs us ∧ contents us = contents ts := by
  induction h generalizing pos' with
  | nil => exact ⟨[], .nil, rfl⟩
  | blank hc _ ih =>
    obtain ⟨us, hus, heq⟩ := ih (pos' + 1)
    exact ⟨us, .blank hc hus, heq⟩
  | hash _ ih =>
    obtain ⟨us, hus, heq⟩ := ih (pos' + 1)
    exact ⟨us, .hash hus, heq⟩
  | comment hc _ ih =>
    obtain ⟨us, hus, heq⟩ := ih (pos' + 1)
    exact ⟨us, .comment hc hus, heq⟩
  | lineEnd _ ih =>
    obtain ⟨us, hus, heq⟩ := ih pos'
    exact ⟨us, .lineEnd hus, heq⟩
  | @piece _ kind run _ _ hk hne hnext _ ih =>
    obtain ⟨us, hus, heq⟩ := ih (pos' + run.length)
    exact ⟨_, .piece hk hne hnext hus, by rw [Token.contents_cons, Token.contents_cons, heq]; rfl⟩

/-! ## Tokens that are shown -/

theorem dropLayout_dropLayout (depth : Nat) (ts : List Token) :
    dropLayout depth (dropLayout depth ts) = dropLayout depth ts := by
  induction ts generalizing depth with
  | nil => rfl
  | cons t ts ih =>
    rw [dropLayout_cons]
    split
    · exact ih depth
    · rename_i hkept
      rw [dropLayout_cons, if_neg hkept, ih]

/-- With a blank between any two of them, the texts of pieces are these pieces again. -/
theorem strips_intercalate (hl : l.LayoutFree) (hts : ∀ t ∈ ts, l.IsPiece t) (pos : Nat) :
    ∃ us, l.Strips false pos (" ".intercalate (ts.map Token.text)).toList us ∧
      contents us = contents ts := by
  induction ts generalizing pos with
  | nil => exact ⟨[], .nil, rfl⟩
  | cons t ts ih =>
    obtain ⟨ht, hts⟩ := List.forall_mem_cons.mp hts
    cases ts with
    | nil =>
      have hpiece : l.Strips false pos (t.text.toList ++ [])
          [⟨t.kind, String.ofList t.text.toList, pos⟩] :=
        .piece ht.not_blank ht.ne_nil (by rw [List.append_nil]; exact ht.next?) .nil
      rw [List.append_nil] at hpiece
      rw [List.map_singleton, String.intercalate_singleton]
      exact ⟨_, hpiece, by rw [String.ofList_toList]; rfl⟩
    | cons u us =>
      obtain ⟨vs, hvs, heq⟩ := ih hts (pos + t.text.toList.length + 1)
      have hshown : (" ".intercalate ((t :: u :: us).map Token.text)).toList =
          t.text.toList ++ ' ' :: (" ".intercalate ((u :: us).map Token.text)).toList := by
        rw [List.map_cons, List.map_cons, String.intercalate_cons_cons, String.toList_append,
          String.toList_append, List.append_assoc]
        rfl
      have hblank : IsLayout ' ' := .inl rfl
      have hnext := next?_append_layout hl ht.ne_nil ht.not_blank ht.next? hblank
        (" ".intercalate ((u :: us).map Token.text)).toList
      rw [hshown]
      refine ⟨_, .piece ht.not_blank ht.ne_nil hnext (.blank rfl hvs), ?_⟩
      rw [Token.contents_cons, Token.contents_cons, heq, String.ofList_toList]
      rfl

/-- The tokens of a source, written with a blank between any two of them, are read again as tokens
of the same kinds and texts. -/
theorem rereads_shown {source : String} (h : standard.tokens source = .ok ts) :
    ∃ us, standard.tokens (Token.showList ts) = .ok us ∧ contents us = contents ts := by
  obtain ⟨ps, hps, rfl⟩ := tokens_ok_iff_strips.mp h
  have hpieces : ∀ t ∈ dropLayout 0 ps, standard.IsPiece t :=
    fun t ht => hps.isPiece t (mem_of_mem_dropLayout ht).1
  have hshown : Token.showList (dropLayout 0 ps ++ [Token.endAt source.length]) =
      " ".intercalate ((dropLayout 0 ps).map Token.text) := by
    unfold Token.showList
    rw [List.filter_append, List.filter_eq_self.mpr fun t ht => by simp [(hpieces t ht).not_end]]
    exact congrArg (fun ts => " ".intercalate (ts.map Token.text)) (List.append_nil _)
  obtain ⟨us, hus, heq⟩ := strips_intercalate layoutFree_standard hpieces 0
  rw [hshown]
  refine ⟨_, tokens_ok_iff_strips.mpr ⟨us, hus, rfl⟩, ?_⟩
  have hdrop := dropLayout_contents heq 0
  rw [dropLayout_dropLayout] at hdrop
  unfold contents at hdrop ⊢
  rw [List.map_append, List.map_append, hdrop]
  rfl

/-- The parentheses do not pair up, and the newline behind them is kept while the one between them
is not. -/
theorem rereads_shown_unbalanced :
    let ts : List Token := [⟨.identifier, "f", 0⟩, ⟨.delimiter, "(", 1⟩, ⟨.operator, "-", 2⟩,
      ⟨.number, "2.", 3⟩, ⟨.delimiter, ",", 5⟩, ⟨.identifier, "x", 7⟩, ⟨.delimiter, ")", 8⟩,
      ⟨.delimiter, ")", 9⟩, ⟨.newline, "\n", 16⟩, ⟨.operator, "!", 17⟩, ⟨.keyword, "if", 18⟩,
      Token.endAt 20]
    standard.tokens "f(-2.,\nx)) # end\n!if" = .ok ts ∧
      Token.showList ts = "f ( - 2. , x ) ) \n ! if" ∧
      ∃ us, standard.tokens "f ( - 2. , x ) ) \n ! if" = .ok us ∧ contents us = contents ts := by
  intro ts
  have hts : standard.tokens "f(-2.,\nx)) # end\n!if" = .ok ts := by decide +kernel
  have hshown : Token.showList ts = "f ( - 2. , x ) ) \n ! if" := by decide +kernel
  have hagain := rereads_shown hts
  rw [hshown] at hagain
  exact ⟨hts, hshown, hagain⟩

end Lexicon

end Abacus
