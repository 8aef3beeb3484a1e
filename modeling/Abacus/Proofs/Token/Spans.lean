import Abacus.Proofs.Token.Pieces

/-!
# Tokens as spans of the source

A scan that succeeds takes the source apart and loses nothing (`Lexicon.Spans`): each token is a
span of the source, the spans follow one another, and between them there is nothing but layout. No
token could be longer. A scan that fails blames the first character that starts no piece: what
stands before it is scanned without a failure, and what stands behind it does not matter.

Both are inductions over the pieces of a scan. The first one goes by way of `Lexicon.Lexed`, which
derives the tokens of a text from gaps and pieces.
-/

namespace Abacus

namespace Token

/-- The position behind the last character of the token. -/
def stop (t : Token) : Nat := t.pos + t.text.length

/-- The depth of parentheses behind the token; a closing parenthesis without a partner leaves it at
zero. -/
def depthAfter (depth : Nat) (t : Token) : Nat :=
  if t.is .delimiter "(" then depth + 1 else if t.is .delimiter ")" then depth - 1 else depth

/-- The depth of parentheses behind tokens. -/
def depthBehind (depth : Nat) (ts : List Token) : Nat := ts.foldl depthAfter depth

/-- The position behind the last of the tokens, or `pos` if there is none. -/
def stopBehind (pos : Nat) (ts : List Token) : Nat := ts.foldl (fun _ t => t.stop) pos

end Token

namespace Lexicon

open Token (depthBehind stopBehind)

variable {l : Lexicon} {depth pos : Nat} {cs rest gap gap' : List Char} {ts : List Token}

/-! ## Gaps -/

theorem Gap.append (h : Gap depth (gap' ++ rest) gap) (h' : Gap depth rest gap') :
    Gap depth rest (gap ++ gap') := by
  induction h with
  | nil => exact h'
  | blank hc _ ih => exact .blank hc ih
  | newline hdepth _ ih => exact .newline hdepth ih
  | @comment body cs hbody hend _ ih =>
    rw [List.cons_append, List.append_assoc]
    rw [← List.append_assoc] at hend
    exact .comment hbody hend ih

theorem Gap.mono {depth' : Nat} (h : Gap depth rest gap) (hle : depth ≤ depth') :
    Gap depth' rest gap := by
  induction h with
  | nil => exact .nil
  | blank hc _ ih => exact .blank hc ih
  | newline hdepth _ ih => exact .newline (hdepth.trans_le hle) ih
  | comment hbody hend _ ih => exact .comment hbody hend ih

/-- Outside of all parentheses there is no newline in a gap. -/
theorem Gap.depth_pos (h : Gap depth rest gap) (hn : '\n' ∈ gap) : 0 < depth := by
  induction h with
  | nil => cases hn
  | @blank c cs hc _ ih =>
    rcases List.mem_cons.mp hn with rfl | hn
    · exact absurd hc (by decide)
    · exact ih hn
  | newline hdepth => exact hdepth
  | @comment body cs hbody _ _ ih =>
    rcases List.mem_cons.mp hn with hn | hn
    · exact absurd hn (by decide)
    · exact ih ((List.mem_append.mp hn).resolve_left hbody)

/-! ## Deriving the tokens of a text -/

/-- At a depth of parentheses the text, whose first character stands at `pos`, is a gap, or a gap
with a token and more text behind it. -/
inductive Lexed (l : Lexicon) : Nat → Nat → List Char → List Token → Prop
  | done {depth pos : Nat} {gap : List Char} (hgap : Gap depth [] gap) : Lexed l depth pos gap []
  | token {depth pos : Nat} {gap rest : List Char} {t : Token} {ts : List Token}
      (hpos : t.pos = pos + gap.length) (hgap : Gap depth (t.text.toList ++ rest) gap)
      (hne : t.text.toList ≠ []) (hfits : l.Fits t.kind t.text)
      (hmax : l.Maximal rest t.kind t.text.toList) (hblank : t.kind ≠ .blank)
      (hnewline : t.kind = .newline → depth = 0)
      (hrest : Lexed l (t.depthAfter depth) t.stop rest ts) :
      Lexed l depth pos (gap ++ (t.text.toList ++ rest)) (t :: ts)

/-- A gap in front of the text makes its first gap longer. -/
theorem Lexed.prepend (hgap : Gap depth cs gap) (h : Lexed l depth (pos + gap.length) cs ts) :
    Lexed l depth pos (gap ++ cs) ts := by
  cases h with
  | done hgap' =>
    have hnil : Gap depth (cs ++ []) gap := by rwa [List.append_nil]
    exact .done (hnil.append hgap')
  | @token _ _ gap' rest t ts hpos hgap' hne hfits hmax hblank hnewline hrest =>
    rw [← List.append_assoc]
    refine .token ?_ (hgap.append hgap') hne hfits hmax hblank hnewline hrest
    rw [hpos, List.length_append, Nat.add_assoc]

/-- Blanks are dropped everywhere, and newlines inside parentheses. -/
theorem dropLayout_cons (depth : Nat) (t : Token) (ts : List Token) :
    dropLayout depth (t :: ts) =
      if t.kind = .blank ∨ t.kind = .newline ∧ 0 < depth then dropLayout depth ts
      else t :: dropLayout (t.depthAfter depth) ts := by
  rw [dropLayout]
  by_cases hb : t.kind = .blank
  · simp [hb]
  by_cases hn : t.kind = .newline
  · by_cases hd : depth = 0
    · simp [hn, hd, Token.depthAfter, Token.is]
    · simp [hn, hd, Nat.pos_of_ne_zero hd]
  · simp only [hb, hn, false_and, or_self, ↓reduceIte, Token.depthAfter]
    split
    · rfl
    · split <;> rfl

theorem length_ofList (cs : List Char) : (String.ofList cs).length = cs.length := by
  rw [← String.length_toList, String.toList_ofList]

theorem lexed_of_scanFrom (pos : Nat) (cs : List Char) (hok : (l.scanFrom pos cs).failure = none)
    (depth : Nat) : Lexed l depth pos cs (dropLayout depth (l.scanFrom pos cs).pieces) := by
  fun_induction l.scanFrom pos cs generalizing depth with
  | case1 => exact .done .nil
  | case2 => cases hok
  | case3 => cases hok
  | case4 pos c rest kind d ds hnext scan ih =>
    -- The induction follows the scan. A piece that is kept starts a token, one that is dropped only
    -- widens the gap in front of the next.
    obtain ⟨rest', hcs, hmax⟩ := maximal_of_next? hnext
    rw [List.cons_append, List.cons.injEq] at hcs
    obtain ⟨rfl, rfl⟩ := hcs
    have hlex := ih hok
    have hscan : scan = l.scanFrom (pos + ds.length + 1) rest' := by
      simp only [scan, List.drop_left]
    rw [List.drop_left, ← hscan] at hlex
    rw [dropLayout_cons]
    split
    · rename_i hlayout
      have hgap : Gap depth rest' (c :: ds) := by
        rcases hlayout with hb | ⟨hn, hdepth⟩
        · rw [show kind = .blank from hb] at hmax
          exact hmax.mono (Nat.zero_le depth)
        · rw [show kind = .newline from hn] at hmax
          rw [show c :: ds = ['\n'] from hmax]
          exact .newline hdepth .nil
      exact .prepend hgap (hlex depth)
    · rename_i hlayout
      rw [not_or, not_and, Nat.pos_iff_ne_zero, not_not] at hlayout
      let t : Token := ⟨kind, String.ofList (c :: ds), pos⟩
      have htext : t.text.toList = c :: ds := String.toList_ofList
      have hstop : t.stop = pos + ds.length + 1 := by
        rw [Token.stop, length_ofList, List.length_cons, Nat.add_assoc]
      rw [← hstop] at hlex
      have htoken := Lexed.token (t := t) rfl .nil (by simp [htext]) (fits_of_next? hnext)
        (by rwa [htext]) hlayout.1 hlayout.2 (hlex (t.depthAfter depth))
      rwa [htext] at htoken

/-! ## What the derivation says of each token -/

/-- A token of the list with the gap in front of it. -/
theorem Lexed.split {before after : List Token} {t : Token}
    (h : Lexed l depth pos cs (before ++ t :: after)) :
    ∃ front gap rest, cs = front ++ (gap ++ (t.text.toList ++ rest)) ∧
      pos + front.length = stopBehind pos before ∧ t.pos = pos + front.length + gap.length ∧
      Gap (depthBehind depth before) (t.text.toList ++ rest) gap ∧ t.text.toList ≠ [] ∧
      l.Fits t.kind t.text ∧ l.Maximal rest t.kind t.text.toList := by
  induction before generalizing depth pos cs with
  | nil =>
    cases h with
    | token hpos hgap hne hfits hmax =>
      exact ⟨[], _, _, rfl, rfl, hpos, hgap, hne, hfits, hmax⟩
  | cons u us ih =>
    cases h with
    | @token _ _ gap₀ rest₀ _ _ hpos _ _ _ _ _ _ hrest =>
      obtain ⟨front, gap, rest, rfl, hstop, htpos, hgap, htoken⟩ := ih hrest
      have hlen : pos + (gap₀ ++ (u.text.toList ++ front)).length = u.stop + front.length := by
        simp only [List.length_append, String.length_toList, Token.stop, hpos]
        omega
      refine ⟨gap₀ ++ (u.text.toList ++ front), gap, rest, by simp, ?_, ?_, hgap, htoken⟩
      · rw [hlen, hstop]
        rfl
      · rw [hlen, htpos]

/-- The gap behind the last token. -/
theorem Lexed.last (h : Lexed l depth pos cs ts) :
    ∃ front gap, cs = front ++ gap ∧ pos + front.length = stopBehind pos ts ∧
      Gap (depthBehind depth ts) [] gap := by
  induction h with
  | @done depth pos gap hgap => exact ⟨[], gap, rfl, rfl, hgap⟩
  | @token depth pos gap₀ rest t ts hpos _ _ _ _ _ _ _ ih =>
    obtain ⟨front, gap, rfl, hstop, hgap⟩ := ih
    refine ⟨gap₀ ++ (t.text.toList ++ front), gap, by simp, ?_, hgap⟩
    have hlen : pos + (gap₀ ++ (t.text.toList ++ front)).length = t.stop + front.length := by
      simp only [List.length_append, String.length_toList, Token.stop, hpos]
      omega
    rw [hlen, hstop]
    rfl

theorem Lexed.pos_le (h : Lexed l depth pos cs ts) : ∀ t ∈ ts, pos ≤ t.pos := by
  induction h with
  | done => simp
  | @token depth pos gap rest t ts hpos _ _ _ _ _ _ _ ih =>
    refine List.forall_mem_cons.mpr ⟨by omega, fun u hu => ?_⟩
    have hle : t.stop ≤ u.pos := ih u hu
    unfold Token.stop at hle
    omega

theorem Lexed.ordered (h : Lexed l depth pos cs ts) :
    ts.Pairwise fun t u => t.pos < u.pos ∧ t.stop ≤ u.pos := by
  induction h with
  | done => exact .nil
  | @token depth pos gap rest t ts hpos _ hne _ _ _ _ hrest ih =>
    refine .cons (fun u hu => ?_) ih
    have hle := hrest.pos_le u hu
    have hlen : 0 < t.text.length := by
      rw [← String.length_toList]
      exact List.length_pos_iff.mpr hne
    refine ⟨?_, hle⟩
    unfold Token.stop at hle
    omega

/-! ## Newlines -/

/-- Words and symbols that hold no newline. -/
def NoNewlines (l : Lexicon) : Prop := ∀ w ∈ l.operators ++ l.delimiters, '\n' ∉ w.toList

/-- What holds of the characters of words, of the point and of the characters of operators and
delimiters holds of the characters of all tokens but newlines. -/
theorem Fits.forall {P : Char → Prop} (hpart : ∀ c, isWordPart c → P c) (hpoint : P '.')
    (hwords : ∀ w ∈ l.operators ++ l.delimiters, ∀ c ∈ w.toList, P c) {kind : TokenKind}
    {text : String} (hfits : l.Fits kind text) (hmax : l.Maximal rest kind text.toList)
    (hblank : kind ≠ .blank) (hnewline : kind ≠ .newline) : ∀ c ∈ text.toList, P c := by
  have hword : IsWord text → ∀ c ∈ text.toList, P c := by
    rintro ⟨c, cs, hcs, hc, hcs'⟩
    rw [hcs]
    refine List.forall_mem_cons.mpr ⟨hpart c ?_, fun d hd => hpart d (hcs' d hd)⟩
    unfold isWordStart at hc
    unfold isWordPart Char.isAlphanum
    rw [Bool.or_assoc, Bool.or_comm c.isDigit, ← Bool.or_assoc, hc, Bool.true_or]
  have hlongest : ∀ {ws : List String}, (∀ w ∈ ws, ∀ c ∈ w.toList, P c) →
      IsLongest ws rest text.toList → ∀ c ∈ text.toList, P c := by
    rintro ws hws ⟨⟨w, hw, htext⟩, -⟩
    rw [← htext]
    exact hws w hw
  cases kind with
  | newline => exact absurd rfl hnewline
  | blank => exact absurd rfl hblank
  | number =>
    have hdigits : ∀ c ∈ Number.asciiDigits, isWordPart c :=
      List.all_iff_forall_prop.mp (by decide)
    exact Number.IsNumeral.forall hfits
      (List.forall_mem_cons.mpr ⟨hpoint, fun c hc => hpart c (hdigits c hc)⟩)
  | operator => exact hlongest (fun w hw => hwords w (List.mem_append_left _ hw)) hmax
  | delimiter => exact hlongest (fun w hw => hwords w (List.mem_append_right _ hw)) hmax
  | identifier => exact hword hfits.1
  | keyword => exact hword hfits.1
  | endOfText => exact hfits.elim
  | other => exact hfits.elim

/-- Among the tokens only a newline token holds a newline. -/
theorem kind_of_newline (hl : l.NoNewlines) {t : Token} (hfits : l.Fits t.kind t.text)
    (hmax : l.Maximal rest t.kind t.text.toList) (hblank : t.kind ≠ .blank)
    (hn : '\n' ∈ t.text.toList) : t.kind = .newline ∧ t.text = "\n" := by
  by_cases hk : t.kind = .newline
  · rw [hk] at hmax
    exact ⟨hk, String.toList_inj.mp hmax⟩
  · have hpart : ∀ c, isWordPart c → c ≠ '\n' := by
      rintro c hc rfl
      exact absurd hc (by decide)
    have hwords : ∀ w ∈ l.operators ++ l.delimiters, ∀ c ∈ w.toList, c ≠ '\n' :=
      fun w hw c hc => ne_of_mem_of_not_mem hc (hl w hw)
    exact absurd rfl (Fits.forall hpart (by decide) hwords hfits hmax hblank hk _ hn)

theorem filter_pos_eq_nil {i : Nat} (h : ∀ t ∈ ts, i ≤ t.pos) :
    (ts.filter fun t => t.pos < i) = [] := by
  rw [List.filter_eq_nil_iff]
  intro t ht
  simpa using h t ht

/-- A newline of the text is a token exactly when it stands outside of all parentheses. -/
theorem Lexed.newline_iff (hl : l.NoNewlines) (h : Lexed l depth pos cs ts) {i : Nat}
    (hi : cs[i]? = some '\n') : ⟨.newline, "\n", pos + i⟩ ∈ ts ↔
      depthBehind depth (ts.filter fun t => t.pos < pos + i) = 0 := by
  induction h generalizing i with
  | @done depth pos gap hgap =>
    have hdepth := hgap.depth_pos (List.mem_of_getElem? hi)
    simp [depthBehind, Nat.ne_of_gt hdepth]
  | @token depth pos gap rest t ts hpos hgap hne hfits hmax hblank hnewline hrest ih =>
    have hts := hrest.pos_le
    have hstop : t.stop = t.pos + t.text.toList.length := by rw [String.length_toList]; rfl
    have hlen := List.length_pos_iff.mpr hne
    by_cases hgapi : i < gap.length
    · -- In the gap: inside parentheses, and before all tokens.
      rw [List.getElem?_append_left hgapi] at hi
      have hdepth := hgap.depth_pos (List.mem_of_getElem? hi)
      have hlt : ∀ u ∈ t :: ts, pos + i < u.pos :=
        List.forall_mem_cons.mpr ⟨by omega, fun u hu => by have := hts u hu; omega⟩
      rw [filter_pos_eq_nil fun u hu => (hlt u hu).le]
      constructor
      · exact fun hmem => absurd (hlt _ hmem) (Nat.lt_irrefl _)
      · exact fun hzero => absurd hzero (Nat.ne_of_gt hdepth)
    obtain ⟨j, rfl⟩ := Nat.exists_eq_add_of_le (Nat.le_of_not_lt hgapi)
    rw [List.getElem?_append_right (Nat.le_add_right _ _), Nat.add_sub_cancel_left] at hi
    by_cases htext : j < t.text.toList.length
    · -- In the token, which therefore is a newline.
      rw [List.getElem?_append_left htext] at hi
      obtain ⟨hkind, hn⟩ := kind_of_newline hl hfits hmax hblank (List.mem_of_getElem? hi)
      have hj : j = 0 := by simpa [hn] using htext
      have htoken : t = ⟨.newline, "\n", pos + (gap.length + j)⟩ := by
        rw [hj, Nat.add_zero, ← hpos, ← hkind, ← hn]
      have hge : ∀ u ∈ t :: ts, pos + (gap.length + j) ≤ u.pos :=
        List.forall_mem_cons.mpr ⟨by omega, fun u hu => by have := hts u hu; omega⟩
      rw [filter_pos_eq_nil hge]
      exact iff_of_true (htoken ▸ List.mem_cons_self) (hnewline hkind)
    · -- Behind the token the claim is about the rest of the list, at a depth the token settled.
      obtain ⟨k, rfl⟩ := Nat.exists_eq_add_of_le (Nat.le_of_not_lt htext)
      rw [List.getElem?_append_right (Nat.le_add_right _ _), Nat.add_sub_cancel_left] at hi
      have hplace : pos + (gap.length + (t.text.toList.length + k)) = t.stop + k := by omega
      have hlt : t.pos < t.stop + k := by omega
      have hne : (⟨.newline, "\n", t.stop + k⟩ : Token) ≠ t := fun he => by
        have hsame : t.stop + k = t.pos := congrArg Token.pos he
        omega
      rw [hplace, List.mem_cons, or_iff_right hne, List.filter_cons_of_pos (by simpa using hlt)]
      exact ih hi

/-! ## Tokens of a source -/

/-- The characters from `start` on and before `stop`. -/
def slice (cs : List Char) (start stop : Nat) : List Char := (cs.drop start).take (stop - start)

/-- How tokens lie in the text that they come from. -/
structure Spans (l : Lexicon) (cs : List Char) (ts : List Token) : Prop where
  /-- The end of the text comes last and nowhere else. All tokens before it are of their kinds. -/
  ends : ∃ body, ts = body ++ [Token.endAt cs.length] ∧
    ∀ t ∈ body, t.isEnd = false ∧ l.Fits t.kind t.text
  /-- Each token is the text from its position on. -/
  text_eq : ∀ t ∈ ts, slice cs t.pos t.stop = t.text.toList
  /-- The tokens follow one another without an overlap. -/
  ordered : ts.Pairwise fun t u => t.pos < u.pos ∧ t.stop ≤ u.pos
  /-- What stands in front of a token is blanks, comments and, inside parentheses, newlines. -/
  gap : ∀ {before after : List Token} {t : Token}, ts = before ++ t :: after →
    Gap (depthBehind 0 before) (cs.drop t.pos) (slice cs (stopBehind 0 before) t.pos)
  /-- A newline is a token exactly when it stands outside of all parentheses. -/
  newline_iff : ∀ {i : Nat}, cs[i]? = some '\n' →
    (⟨.newline, "\n", i⟩ ∈ ts ↔ depthBehind 0 (ts.filter fun t => t.pos < i) = 0)
  /-- No token could be longer. -/
  maximal : ∀ t ∈ ts, l.Maximal (cs.drop t.stop) t.kind t.text.toList
  /-- The keywords are the words of the lexicon's list. -/
  keyword_iff : ∀ t ∈ ts, t.isName → (t.kind = .keyword ↔ t.text ∈ l.keywords)

theorem slice_append (front gap rest : List Char) :
    slice (front ++ (gap ++ rest)) front.length (front.length + gap.length) = gap := by
  rw [slice, List.drop_left, Nat.add_sub_cancel_left, List.take_left]

theorem drop_append_append (front gap rest : List Char) :
    (front ++ (gap ++ rest)).drop (front.length + gap.length) = rest := by
  rw [← List.append_assoc, ← List.length_append, List.drop_left]

/-- A token as a span of the text. -/
theorem Lexed.span (h : Lexed l 0 0 cs ts) {t : Token} (ht : t ∈ ts) :
    ∃ front rest, cs = front ++ (t.text.toList ++ rest) ∧ t.pos = front.length ∧
      t.stop = front.length + t.text.toList.length ∧ t.text.toList ≠ [] ∧ l.Fits t.kind t.text ∧
      l.Maximal rest t.kind t.text.toList := by
  obtain ⟨before, after, rfl⟩ := List.append_of_mem ht
  obtain ⟨front, gap, rest, rfl, -, hpos, -, htoken⟩ := h.split
  have hlen : t.pos = (front ++ gap).length := by rw [hpos, Nat.zero_add, List.length_append]
  refine ⟨front ++ gap, rest, by simp, hlen, ?_, htoken⟩
  rw [Token.stop, hlen, String.length_toList]

/-- The tokens follow one another without an overlap, and the end of the text follows them all. -/
theorem Lexed.ordered_end (h : Lexed l 0 0 cs ts) :
    (ts ++ [Token.endAt cs.length]).Pairwise fun t u => t.pos < u.pos ∧ t.stop ≤ u.pos := by
  refine List.pairwise_append.mpr ⟨h.ordered, List.pairwise_singleton _ _, fun t ht e he => ?_⟩
  obtain ⟨front, rest, hcs, hpos, hstop, hne, -⟩ := h.span ht
  have hlen := List.length_pos_iff.mpr hne
  rw [List.mem_singleton.mp he]
  simp only [Token.endAt, hcs, List.length_append]
  omega

/-- The tokens before the end of the text. -/
theorem Lexed.spans (hl : l.NoNewlines) (h : Lexed l 0 0 cs ts) :
    Spans l cs (ts ++ [Token.endAt cs.length]) where
  ends := by
    refine ⟨ts, rfl, fun t ht => ?_⟩
    -- Each field is asked of a token of the list or of the end token behind it, of which only the
    -- order and the last gap say anything.
    obtain ⟨_, _, -, -, -, -, hfits, -⟩ := h.span ht
    exact ⟨hfits.not_end, hfits⟩
  text_eq t ht := by
    rcases List.mem_append.mp ht with ht | ht
    · obtain ⟨front, rest, hcs, hpos, hstop, -⟩ := h.span ht
      rw [hstop, hpos, hcs, slice_append]
    · rw [List.mem_singleton.mp ht]
      simp [slice, Token.endAt]
  ordered := h.ordered_end
  gap {before after t} hts := by
    rcases after.eq_nil_or_concat with rfl | ⟨after, e, rfl⟩
    · obtain ⟨rfl, he⟩ := List.append_inj' hts rfl
      obtain ⟨front, gap, hcs, hstop, hgap⟩ := h.last
      have hslice := slice_append front gap []
      rw [List.append_nil, ← hcs, ← List.length_append, ← hcs] at hslice
      rw [← (List.cons.inj he).1, ← hstop, Nat.zero_add]
      simp only [Token.endAt, List.drop_length]
      rwa [hslice]
    · rw [List.concat_eq_append, ← List.cons_append, ← List.append_assoc] at hts
      obtain ⟨rfl, -⟩ := List.append_inj' hts rfl
      obtain ⟨front, gap, rest, hcs, hstop, hpos, hgap, -⟩ := h.split
      rw [← hstop, hpos, Nat.zero_add, hcs, slice_append, drop_append_append]
      exact hgap
  newline_iff {i} hi := by
    have hlt : i < cs.length := (List.getElem?_eq_some_iff.mp hi).1
    have hiff := h.newline_iff hl hi
    rw [Nat.zero_add] at hiff
    rw [List.mem_append, or_iff_left (by simp [Token.endAt]), hiff, List.filter_append]
    simp [Token.endAt, Nat.le_of_lt hlt]
  maximal t ht := by
    rcases List.mem_append.mp ht with ht | ht
    · obtain ⟨front, rest, hcs, hpos, hstop, -, -, hmax⟩ := h.span ht
      rw [hstop, hcs, drop_append_append]
      exact hmax
    · rw [List.mem_singleton.mp ht]
      trivial
  keyword_iff t ht hname := by
    rcases List.mem_append.mp ht with ht | ht
    · obtain ⟨_, _, -, -, -, -, hfits, -⟩ := h.span ht
      simp only [Token.isName, Bool.or_eq_true, decide_eq_true_eq] at hname
      rcases hname with hk | hk
      · rw [hk] at hfits ⊢
        exact iff_of_false (by simp) hfits.2
      · rw [hk] at hfits ⊢
        exact iff_of_true rfl hfits.2
    · rw [List.mem_singleton.mp ht] at hname
      cases hname

/-! ## Scans that fail -/

theorem scanFrom_append {kind : TokenKind} {run : List Char} (hne : run ≠ [])
    (h : l.next? (run ++ rest) = some (kind, run)) :
    l.scanFrom pos (run ++ rest) =
      ⟨⟨kind, String.ofList run, pos⟩ :: (l.scanFrom (pos + run.length) rest).pieces,
        (l.scanFrom (pos + run.length) rest).failure⟩ := by
  cases run with
  | nil => exact absurd rfl hne
  | cons d ds =>
    rw [List.cons_append] at h ⊢
    rw [scanFrom, h]
    simp only [List.drop_left, List.length_cons, Nat.add_assoc]

theorem drop_of_append {c d : Char} {tail ds : List Char} (h : c :: tail = d :: ds ++ rest) :
    tail.drop ds.length = rest := by
  rw [List.cons_append, List.cons.injEq] at h
  rw [h.2, List.drop_left]

/-- The character that is blamed stands where it is blamed; the text before it is scanned without a
failure, and with any text from it on the failure is the same. -/
theorem scanFrom_failure {c : Char} {p : Nat} (pos : Nat) (cs : List Char)
    (h : (l.scanFrom pos cs).failure = some (.unexpectedChar c p)) :
    ∃ i, p = pos + i ∧ cs[i]? = some c ∧ (l.scanFrom pos (cs.take i)).failure = none ∧
      ∀ k, i < k → (l.scanFrom pos (cs.take k)).failure = some (.unexpectedChar c p) := by
  fun_induction l.scanFrom pos cs with
  | case1 => cases h
  | case2 pos d rest hnext =>
    cases h
    refine ⟨0, rfl, rfl, by rw [List.take_zero, scanFrom], fun k hk => ?_⟩
    obtain ⟨j, rfl⟩ := Nat.exists_eq_add_one.mpr hk
    have hnone := (next?_local l (c :: rest) (j + 1)).1 hnext
    rw [List.take_succ_cons] at hnone ⊢
    rw [scanFrom, hnone]
  | case3 => cases h
  | case4 pos d rest kind e ds hnext scan ih =>
    obtain ⟨i, hp, hi, hok, hfails⟩ := ih h
    obtain ⟨rest', hcs, -⟩ := maximal_of_next? hnext
    rw [drop_of_append hcs] at hi hok hfails
    rw [hcs] at hnext ⊢
    -- The first piece stays, wherever behind it the text is cut off.
    have hfirst : ∀ k, (l.scanFrom pos ((e :: ds ++ rest').take ((e :: ds).length + k))).failure =
        (l.scanFrom (pos + ds.length + 1) (rest'.take k)).failure := by
      intro k
      have htake := (next?_local l _ ((e :: ds).length + k)).2 _ _ hnext (Nat.le_add_right _ _)
      rw [List.take_length_add_append] at htake ⊢
      rw [scanFrom_append (by simp) htake]
      rfl
    refine ⟨(e :: ds).length + i, by rw [hp, List.length_cons]; omega, ?_, ?_, fun k hk => ?_⟩
    · rwa [List.getElem?_append_right (Nat.le_add_right _ _), Nat.add_sub_cancel_left]
    · rw [hfirst, hok]
    · obtain ⟨j, rfl⟩ := Nat.exists_eq_add_of_lt hk
      rw [Nat.add_assoc, Nat.add_assoc, hfirst]
      exact hfails _ (by omega)

/-! ## Scans in the notation of Abacus -/

theorem noNewlines_standard : standard.NoNewlines := List.all_iff_forall_prop.mp (by decide)

/-- Where a source has tokens, they are derived from it. -/
theorem lexed_of_tokens {source : String} (h : l.tokens source = .ok ts) :
    ∃ body, ts = body ++ [Token.endAt source.length] ∧ Lexed l 0 0 source.toList body := by
  unfold tokens scan at h
  have hlex := lexed_of_scanFrom (l := l) 0 source.toList
  split at h
  · rename_i pieces hscan
    cases h
    rw [hscan] at hlex
    exact ⟨_, rfl, hlex rfl 0⟩
  · cases h

theorem spans_of_tokens {source : String} (hl : l.NoNewlines) (h : l.tokens source = .ok ts) :
    Spans l source.toList ts := by
  obtain ⟨body, rfl, hlex⟩ := lexed_of_tokens h
  rw [← String.length_toList]
  exact hlex.spans hl

theorem tokens_ok_iff {source : String} :
    (∃ ts, l.tokens source = .ok ts) ↔ (l.scanFrom 0 source.toList).failure = none := by
  unfold tokens scan
  cases h : l.scanFrom 0 source.toList with | mk pieces failure =>
  cases failure with
  | none => simp
  | some e => simp

theorem tokens_error_iff {source : String} {e : ScanError} :
    l.tokens source = .error e ↔ (l.scanFrom 0 source.toList).failure = some e := by
  unfold tokens scan
  cases h : l.scanFrom 0 source.toList with | mk pieces failure =>
  cases failure with
  | none => simp
  | some e' => simp

/-- A scan fails at a character, unless there is an empty delimiter. -/
theorem unexpectedChar_of_scanFrom {e : ScanError} (hl : "" ∉ l.delimiters) (pos : Nat)
    (cs : List Char) (h : (l.scanFrom pos cs).failure = some e) :
    ∃ c p, e = .unexpectedChar c p := by
  fun_induction l.scanFrom pos cs with
  | case1 => cases h
  | case2 pos c rest => exact ⟨c, pos, (Option.some.inj h).symm⟩
  | case3 pos c rest kind hnext => exact absurd rfl (ne_nil_of_next? hl hnext)
  | case4 pos c rest kind d ds hnext scan ih => exact ih h

/-- The tokens of a source are spans of it that leave out nothing but layout and could not be
longer. Where a source has no tokens, it is for a character that starts none: up to that character
the source has tokens, and with whatever follows it the character is blamed again. -/
theorem tokens_maximal_lossless :
    (∀ (source : String) (ts : List Token), standard.tokens source = .ok ts →
      Spans standard source.toList ts) ∧
    ∀ (source : String) (c : Char) (p : Nat),
      standard.tokens source = .error (.unexpectedChar c p) →
      source.toList[p]? = some c ∧
      (∃ ts, standard.tokens (String.ofList (source.toList.take p)) = .ok ts) ∧
      ∀ k, p < k → standard.tokens (String.ofList (source.toList.take k)) =
        .error (.unexpectedChar c p) := by
  refine ⟨fun source ts h => spans_of_tokens noNewlines_standard h, fun source c p h => ?_⟩
  obtain ⟨i, hp, hi, hok, hfails⟩ := scanFrom_failure 0 source.toList (tokens_error_iff.mp h)
  rw [Nat.zero_add] at hp
  subst hp
  refine ⟨hi, tokens_ok_iff.mpr ?_, fun k hk => tokens_error_iff.mpr ?_⟩
  · rw [String.toList_ofList, hok]
  · rw [String.toList_ofList, hfails k hk]

/-- A definition over two lines, whose first newline stands inside parentheses, and a comparison
that breaks off at half of an operator. -/
theorem tokens_maximal_lossless_definition :
    Spans standard "def f(a,\n b) = a ** b # power\nf(2., 1)".toList
      [⟨.keyword, "def", 0⟩, ⟨.identifier, "f", 4⟩, ⟨.delimiter, "(", 5⟩, ⟨.identifier, "a", 6⟩,
        ⟨.delimiter, ",", 7⟩, ⟨.identifier, "b", 10⟩, ⟨.delimiter, ")", 11⟩, ⟨.operator, "=", 13⟩,
        ⟨.identifier, "a", 15⟩, ⟨.operator, "**", 17⟩, ⟨.identifier, "b", 20⟩,
        ⟨.newline, "\n", 29⟩, ⟨.identifier, "f", 30⟩, ⟨.delimiter, "(", 31⟩, ⟨.number, "2.", 32⟩,
        ⟨.delimiter, ",", 34⟩, ⟨.number, "1", 36⟩, ⟨.delimiter, ")", 37⟩, Token.endAt 38] ∧
    (∃ ts, standard.tokens "1 <= x " = .ok ts) ∧
      standard.tokens "1 <= x &" = .error (.unexpectedChar '&' 7) := by
  refine ⟨tokens_maximal_lossless.1 _ _ (by decide +kernel), ?_⟩
  obtain ⟨-, hbefore, hfails⟩ := tokens_maximal_lossless.2 "1 <= x & 2" '&' 7 (by decide +kernel)
  exact ⟨hbefore, hfails 8 (by decide)⟩

end Lexicon

end Abacus
