import Abacus.Proofs.Token.Scan

/-!
# Cutting a text that is known

`Cuts l rest pos cs ts`: in front of `rest` the scanner cuts the text `cs` into the tokens `ts`, of
which none is a newline. Texts that are cut one behind the other are cut as one text
(`Cuts.append`), so that it is enough to know the single pieces and what must stand behind them:
words and numbers stop at a character that no word goes on with (`Stops`), and a blank is one piece
where the next character is solid (`Solid`).
-/

namespace Abacus

/-- In front of `rest` the text is cut into the tokens, of which the first one stands at `pos`. -/
inductive Cuts (l : Lexicon) (rest : List Char) : Nat → List Char → List Token → Prop
  | nil {pos : Nat} : Cuts l rest pos [] []
  | cons {pos : Nat} {kind : TokenKind} {run cs : List Char} {ts : List Token} (hne : run ≠ [])
      (hk : kind ≠ .newline) (h : l.next? (run ++ (cs ++ rest)) = some (kind, run))
      (hcs : Cuts l rest (pos + run.length) cs ts) :
      Cuts l rest pos (run ++ cs) (⟨kind, String.ofList run, pos⟩ :: ts)

namespace Cuts

variable {l : Lexicon} {rest cs cs' : List Char} {pos : Nat} {ts ts' : List Token}

/-- What is found next is one token. -/
theorem single {kind : TokenKind} (hne : cs ≠ []) (hk : kind ≠ .newline)
    (h : l.next? (cs ++ rest) = some (kind, cs)) :
    Cuts l rest pos cs [⟨kind, String.ofList cs, pos⟩] := by
  have hcuts : Cuts l rest pos (cs ++ []) [⟨kind, String.ofList cs, pos⟩] := .cons hne hk h .nil
  rwa [List.append_nil] at hcuts

/-- Texts that stand behind one another are cut one after the other. -/
theorem append (h : Cuts l (cs' ++ rest) pos cs ts) (h' : Cuts l rest (pos + cs.length) cs' ts') :
    Cuts l rest pos (cs ++ cs') (ts ++ ts') := by
  induction h with
  | nil => simpa using h'
  | @cons pos kind run cs ts hne hk hnext _ ih =>
    rw [List.append_assoc, List.cons_append]
    refine .cons hne hk (by rwa [List.append_assoc]) (ih ?_)
    rwa [List.length_append, ← Nat.add_assoc] at h'

/-- No piece that is cut off is a line break. -/
theorem no_newline (h : Cuts l rest pos cs ts) : ∀ t ∈ ts, t.kind ≠ .newline := by
  induction h with
  | nil => simp
  | cons _ hk _ _ ih => exact List.forall_mem_cons.mpr ⟨hk, ih⟩

/-- A text that is cut to its end is scanned without a failure. -/
theorem scanFrom_eq (h : Cuts l [] pos cs ts) : l.scanFrom pos cs = ⟨ts, none⟩ := by
  induction h with
  | nil => rw [Lexicon.scanFrom]
  | @cons pos kind run cs ts hne _ hnext _ ih =>
    cases run with
    | nil => exact absurd rfl hne
    | cons d ds =>
      rw [List.append_nil] at hnext
      rw [List.length_cons, ← Nat.add_assoc] at ih
      rw [List.cons_append] at hnext ⊢
      unfold Lexicon.scanFrom
      rw [hnext]
      simp only [List.drop_left, ih]

end Cuts

/-! ## Without the blanks -/

/-- The tokens that are no blanks. -/
def visible (ts : List Token) : List Token := ts.filter fun t => t.kind ≠ .blank

@[simp] theorem visible_append (ts us : List Token) :
    visible (ts ++ us) = visible ts ++ visible us :=
  List.filter_append ts us

theorem visible_cons (t : Token) (ts : List Token) :
    visible (t :: ts) = if t.kind = .blank then visible ts else t :: visible ts := by
  simp [visible, List.filter_cons]

theorem visible_single {t : Token} (h : t.kind ≠ .blank) : visible [t] = [t] := by
  simp [visible, h]

theorem visible_blank {t : Token} (h : t.kind = .blank) : visible [t] = [] := by
  simp [visible, h]

namespace Lexicon

/-- Where there are no newlines, dropping the layout is dropping the blanks. -/
theorem dropLayout_eq {ts : List Token} (h : ∀ t ∈ ts, t.kind ≠ .newline) (depth : Nat) :
    dropLayout depth ts = visible ts := by
  induction ts generalizing depth with
  | nil => rfl
  | cons t ts ih =>
    obtain ⟨ht, hts⟩ := List.forall_mem_cons.mp h
    rw [dropLayout, show t :: ts = [t] ++ ts from rfl, visible_append]
    by_cases hb : t.kind = .blank
    · rw [if_pos hb, visible_blank hb, ih hts, List.nil_append]
    · rw [if_neg hb, if_neg ht, visible_single hb]
      split
      · rw [ih hts]; rfl
      · split
        · rw [ih hts]; rfl
        · rw [ih hts]; rfl

/-- A source that is cut into tokens scans to those of them that are not blanks. -/
theorem tokens_of_cuts {l : Lexicon} {source : String} {ts : List Token}
    (h : Cuts l [] 0 source.toList ts) :
    l.tokens source = .ok (visible ts ++ [Token.endAt source.length]) := by
  unfold tokens scan
  rw [h.scanFrom_eq]
  simp only [dropLayout_eq h.no_newline]

end Lexicon

/-! ## Pieces of the notation -/

/-- What comes next goes on with neither a word nor a number. -/
def Stops (rest : List Char) : Prop := ∀ c ∈ rest.head?, Lexicon.isWordPart c = false ∧ c ≠ '.'

/-- What comes next is no blank and no comment. -/
def Solid (rest : List Char) : Prop := ∃ c cs, rest = c :: cs ∧ Lexicon.isBlank c = false ∧ c ≠ '#'

/-- What the text starts with decides whether it is solid. -/
theorem Solid.append {cs : List Char} (h : Solid cs) (rest : List Char) : Solid (cs ++ rest) := by
  obtain ⟨c, cs, rfl, hc⟩ := h
  exact ⟨c, cs ++ rest, rfl, hc⟩

/-- The delimiters, each of which is one character. -/
def delimiterChars : List Char := ['(', ')', ',', ';']

namespace Lexicon

theorem next?_delimiter {c : Char} (hc : c ∈ delimiterChars) (rest : List Char) :
    standard.next? ([c] ++ rest) = some (.delimiter, [c]) := by
  simp only [delimiterChars, List.mem_cons, List.not_mem_nil, or_false] at hc
  rcases hc with rfl | rfl | rfl | rfl <;> rfl

theorem blankRun_solid {rest : List Char} (h : Solid rest) : blankRun false rest = [] := by
  obtain ⟨c, cs, rfl, hb, hc⟩ := h
  unfold blankRun
  simp [hb, hc]

/-- One blank is cut off before what is solid. -/
theorem next?_blank {rest : List Char} (h : Solid rest) :
    standard.next? ([' '] ++ rest) = some (.blank, [' ']) := by
  have hrun : blankRun false ([' '] ++ rest) = [' '] := by
    rw [List.singleton_append, blankRun, blankRun_solid h]
    rfl
  unfold next?
  rw [hrun]
  rfl

/-- The first characters of blanks, comments, newlines, numbers and operators. -/
def nonLetters : List Char :=
  ['\n', '#', ' ', '\t', '\r', '\x0c', '\x0b', '+', '-', '*', '/', '%', '=', '!', '<', '>', '^',
    '&', '|'] ++ Number.asciiDigits

theorem ne_of_isWordStart {c : Char} (hc : isWordStart c) : ∀ d ∈ nonLetters, c ≠ d := by
  rintro d hd rfl
  have hno : ∀ d ∈ nonLetters, isWordStart d = false := List.all_iff_forall_prop.mp (by decide)
  rw [hno c hd] at hc
  cases hc

/-- Words are solid. -/
theorem solid_of_isWordStart {c : Char} (hc : isWordStart c) (cs : List Char) :
    Solid (c :: cs) := by
  have hne := ne_of_isWordStart hc
  simp only [nonLetters, List.forall_mem_append, List.forall_mem_cons] at hne
  exact ⟨c, cs, rfl, by simp [isBlank, hne], hne.1.2.1⟩

theorem isDigit_of_isWordStart {c : Char} (hc : isWordStart c) : c.isDigit = false := by
  apply Bool.eq_false_iff.mpr
  intro hd
  exact ne_of_isWordStart hc c (List.mem_append_right _ (Number.mem_digits hd)) rfl

theorem longest?_eq_none {cs : List Char} {ws : List String}
    (h : ∀ w ∈ ws, w.toList.isPrefixOf cs = false) : longest? cs ws = none := by
  induction ws with
  | nil => rfl
  | cons w ws ih =>
    obtain ⟨hw, hws⟩ := List.forall_mem_cons.mp h
    unfold longest?
    rw [ih hws]
    simp [hw]

/-- No operator starts with a letter. -/
theorem longest?_operators {c : Char} (hc : ∀ d ∈ nonLetters, c ≠ d) (cs : List Char) :
    longest? (c :: cs) standard.operators = none := by
  have hhead : ∀ w ∈ standard.operators, w.toList.head?.any (· ∈ nonLetters) := by decide
  apply longest?_eq_none
  intro w hw
  have hwd := hhead w hw
  cases hcs : w.toList with
  | nil => rw [hcs] at hwd; cases hwd
  | cons d ds =>
    rw [hcs, List.head?_cons, Option.any_some, decide_eq_true_eq] at hwd
    simp [List.isPrefixOf, (hc d hwd).symm]

/-- A word is the longest piece at its start, and its text decides which kind of word it is. -/
theorem next?_word {s : String} {rest : List Char} (hs : IsWord s) (hrest : Stops rest) :
    standard.next? (s.toList ++ rest) = some (standard.wordKind s.toList, s.toList) := by
  obtain ⟨c, cs, hcs, hc, hpart⟩ := hs
  have hne := ne_of_isWordStart hc
  have hnumber : numberRun (c :: (cs ++ rest)) = [] := by
    simp [numberRun, isDigit_of_isWordStart hc]
  have hnewline : newlineRun (c :: (cs ++ rest)) = [] := by
    rw [newlineRun]
    intro _ he
    cases he
    exact hne '\n' (by decide) rfl
  have hword : wordRun (c :: (cs ++ rest)) = c :: cs := by
    rw [wordRun, if_pos hc, List.takeWhile_append_of_pos hpart]
    cases rest with
    | nil => simp
    | cons d ds => simp [(hrest d rfl).1]
  rw [hcs, List.cons_append, next?, blankRun_solid (solid_of_isWordStart hc _), hnewline, hnumber,
    longest?_operators hne, hword]
  rfl

/-- The digits of a numeral are taken as a whole, if nothing behind them could belong to it. -/
theorem numberRun_append {cs rest : List Char} (hcs : Number.IsNumeral cs) (hrest : Stops rest) :
    numberRun (cs ++ rest) = cs := by
  have hdigit : ∀ c ∈ rest.head?, c.isDigit = false := fun c hc => by
    have hpart := (hrest c hc).1
    simp only [isWordPart, Char.isAlphanum, Bool.or_eq_false_iff] at hpart
    exact hpart.1.2
  obtain ⟨whole, tail, rfl, hne, hw, rfl | ⟨fraction, rfl, hf⟩⟩ := hcs
  · obtain ⟨h₁, h₂⟩ := Number.takeWhile_digits rest hw hdigit
    rw [List.append_nil, numberRun, h₁, h₂]
    simp only [List.isEmpty_iff, hne, ↓reduceIte]
    split
    · exact absurd rfl (hrest '.' rfl).2
    · rfl
  · obtain ⟨h₁, h₂⟩ := Number.takeWhile_digits ('.' :: (fraction ++ rest)) hw
      fun c hc => by cases hc; decide
    obtain ⟨h₃, -⟩ := Number.takeWhile_digits rest hf hdigit
    rw [show whole ++ '.' :: fraction ++ rest = whole ++ '.' :: (fraction ++ rest) by simp,
      numberRun, h₁, h₂]
    simp only [List.isEmpty_iff, hne, ↓reduceIte, h₃]

theorem solid_of_isNumeral {cs : List Char} (h : Number.IsNumeral cs) : Solid cs := by
  obtain ⟨c, ds, rfl, hc⟩ := h.head
  have hdigit : ∀ d ∈ Number.asciiDigits, isBlank d = false ∧ d ≠ '#' :=
    List.all_iff_forall_prop.mp (by decide)
  exact ⟨c, ds, rfl, hdigit c (Number.mem_digits hc)⟩

/-- A numeral is the longest piece at its start. -/
theorem next?_number {cs rest : List Char} (hcs : Number.IsNumeral cs) (hrest : Stops rest) :
    standard.next? (cs ++ rest) = some (.number, cs) := by
  obtain ⟨c, ds, he, hc⟩ := hcs.head
  have hnewline : newlineRun (cs ++ rest) = [] := by
    have hdigit : ∀ d ∈ Number.asciiDigits, d ≠ '\n' := List.all_iff_forall_prop.mp (by decide)
    rw [he, List.cons_append, newlineRun]
    intro _ hn
    cases hn
    exact hdigit '\n' (Number.mem_digits hc) rfl
  rw [next?, blankRun_solid ((solid_of_isNumeral hcs).append rest), hnewline,
    numberRun_append hcs hrest, he]
  rfl

end Lexicon

/-! ## Writing tokens -/

/-- Wherever the text stands before something `fine`, it is cut into tokens, and `P` holds of those
that are no blanks. -/
def Writes (fine : List Char → Prop) (text : List Char) (P : List Token → Prop) : Prop :=
  ∀ pos rest, fine rest → ∃ ts, Cuts Lexicon.standard rest pos text ts ∧ P (visible ts)

/-- The tokens are in two parts, of the one sort and of the other. -/
def Both (P Q : List Token → Prop) (ts : List Token) : Prop :=
  ∃ us vs, ts = us ++ vs ∧ P us ∧ Q vs

/-- There is one token. -/
def One (P : Token → Prop) (ts : List Token) : Prop := ∃ t, ts = [t] ∧ P t

/-- A blank comes next. -/
def BlankNext (rest : List Char) : Prop := ∃ cs, rest = ' ' :: cs

theorem stops_blank {rest : List Char} (h : BlankNext rest) : Stops rest := by
  obtain ⟨cs, rfl⟩ := h
  intro c hc
  cases hc
  decide

theorem stops_delimiter {c : Char} (hc : c ∈ delimiterChars) (rest : List Char) :
    Stops (c :: rest) := by
  have hstops : ∀ c ∈ delimiterChars, Lexicon.isWordPart c = false ∧ c ≠ '.' :=
    List.all_iff_forall_prop.mp (by decide)
  intro d hd
  cases hd
  exact hstops c hc

namespace Writes

variable {fine fine' : List Char → Prop} {text text' : List Char} {P Q : List Token → Prop}

/-- A text behind another one is cut off on its own, if it may stand behind the other. -/
theorem append (h : Writes fine text P) (h' : Writes fine' text' Q)
    (hfine : ∀ rest, fine' rest → fine (text' ++ rest)) :
    Writes fine' (text ++ text') (Both P Q) := by
  intro pos rest hrest
  obtain ⟨ts, hts, hP⟩ := h pos (text' ++ rest) (hfine rest hrest)
  obtain ⟨us, hus, hQ⟩ := h' (pos + text.length) rest hrest
  exact ⟨ts ++ us, hts.append hus, visible ts, visible us, visible_append ts us, hP, hQ⟩

/-- What is said of the tokens may be weakened. -/
theorem imp (h : Writes fine text P) (himp : ∀ ts, P ts → Q ts) : Writes fine text Q := by
  intro pos rest hrest
  obtain ⟨ts, hts, hP⟩ := h pos rest hrest
  exact ⟨ts, hts, himp _ hP⟩

theorem nil : Writes fine [] (· = []) := fun _ _ _ => ⟨[], .nil, rfl⟩

/-- A text that is a single piece. -/
theorem single {kind : TokenKind} (hne : text ≠ []) (hk : kind ≠ .newline) (hb : kind ≠ .blank)
    (h : ∀ rest, fine rest → Lexicon.standard.next? (text ++ rest) = some (kind, text)) :
    Writes fine text (One fun t => t.kind = kind ∧ t.text = String.ofList text) := by
  intro pos rest hrest
  exact ⟨_, .single hne hk (h rest hrest), _, visible_single hb, rfl, rfl⟩

/-- A delimiter is a token by itself, whatever is behind it. -/
theorem delimiter {c : Char} (hc : c ∈ delimiterChars) :
    Writes (fun _ => True) [c] (One fun t => t.is .delimiter (String.ofList [c])) :=
  (Writes.single (by simp) (by simp) (by simp) fun rest _ => Lexicon.next?_delimiter hc rest).imp
    fun _ ⟨t, ht, hk, hs⟩ => ⟨t, ht, by simp [Token.is, hk, hs]⟩

/-- A blank in front of what is solid leaves no token. -/
theorem blank : Writes Solid [' '] (· = []) := by
  intro pos rest hrest
  exact ⟨_, .single (by simp) (by simp) (Lexicon.next?_blank hrest), visible_blank rfl⟩

/-- A word is one token, unless it goes on behind. -/
theorem word {s : String} (hs : IsWord s) :
    Writes Stops s.toList
      (One fun t => t.kind = Lexicon.standard.wordKind s.toList ∧ t.text = s) := by
  have hne : s.toList ≠ [] := by
    obtain ⟨c, cs, h, -⟩ := hs
    simp [h]
  have hk : Lexicon.standard.wordKind s.toList ≠ .newline ∧
      Lexicon.standard.wordKind s.toList ≠ .blank := by
    unfold Lexicon.wordKind
    split <;> simp
  have hsingle := Writes.single hne hk.1 hk.2 fun rest hrest => Lexicon.next?_word hs hrest
  rwa [String.ofList_toList] at hsingle

/-- A numeral is one token, unless it goes on behind. -/
theorem number {s : String} (hs : Number.IsNumeral s.toList) :
    Writes Stops s.toList (One fun t => t.kind = .number ∧ t.text = s) := by
  have hne : s.toList ≠ [] := by
    obtain ⟨c, cs, h, -⟩ := hs.head
    simp [h]
  have hsingle := Writes.single hne (by simp) (by simp) fun rest hrest =>
    Lexicon.next?_number hs hrest
  rwa [String.ofList_toList] at hsingle

/-- An operator before a blank, or one that no other operator starts with. -/
theorem operator {s : String} (hne : s.toList ≠ [])
    (h : ∀ rest, fine rest →
      Lexicon.standard.next? (s.toList ++ rest) = some (.operator, s.toList)) :
    Writes fine s.toList (One fun t => t.is .operator s) := by
  have hsingle := Writes.single hne (by simp) (by simp) h
  rw [String.ofList_toList] at hsingle
  exact hsingle.imp fun _ ⟨t, ht, hk, hs⟩ => ⟨t, ht, by simp [Token.is, hk, hs]⟩

/-- What may stand behind may be narrowed down. -/
theorem weaken (h : Writes fine text P) (hfine : ∀ rest, fine' rest → fine rest) :
    Writes fine' text P :=
  fun pos rest hrest => h pos rest (hfine rest hrest)

/-- A text with a blank behind it. -/
theorem blankBehind (h : Writes BlankNext text P) : Writes Solid (text ++ [' ']) P := by
  refine (h.append Writes.blank fun rest _ => ⟨rest, rfl⟩).imp ?_
  rintro _ ⟨us, _, rfl, hus, rfl⟩
  rwa [List.append_nil]

/-- A text with a blank on each side. -/
theorem spaced (h : Writes BlankNext text P) (htext : Solid text) :
    Writes Solid ([' '] ++ (text ++ [' '])) P := by
  have hsolid : ∀ rest, Solid rest → Solid (text ++ [' '] ++ rest) := fun rest _ => by
    rw [List.append_assoc]
    exact htext.append _
  apply (Writes.blank.append h.blankBehind hsolid).imp
  rintro _ ⟨_, us, rfl, rfl, hus⟩
  exact hus

/-- A text in parentheses. -/
theorem parens (h : Writes Stops text P) :
    Writes (fun _ => True) (['('] ++ (text ++ [')'])) fun ts =>
      ∃ l us r, ts = l :: (us ++ [r]) ∧ l.is .delimiter "(" ∧ P us ∧ r.is .delimiter ")" := by
  have hclose : ∀ rest, True → Stops ([')'] ++ rest) :=
    fun rest _ => stops_delimiter (by decide) rest
  refine ((Writes.delimiter (by decide)).append (h.append (Writes.delimiter (by decide)) hclose)
    fun _ _ => trivial).imp ?_
  rintro _ ⟨_, _, rfl, ⟨l, rfl, hl⟩, us, _, rfl, hus, ⟨r, rfl, hr⟩⟩
  exact ⟨l, us, r, rfl, hl, hus, hr⟩

end Writes

end Abacus
