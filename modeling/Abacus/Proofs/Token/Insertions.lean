import Abacus.Proofs.Token.Layout

/-!
# Layout put into a source

A place of a source that is not inside of a token divides its tokens into those in front and those
behind (`Lexicon.Strips.splitsAt`): what is stripped of a text up to the place (`Lexicon.Opens`) is
the same whatever comes next, as long as that starts with layout. Then a blank, a comment or a
newline that is put there can be followed, since it is stripped between the two parts.

* `Lexicon.Opens.reads_blanks`, `Lexicon.Opens.reads_comment`: blanks change no token, and neither
  does a comment in front of the end of a line.
* `Lexicon.Opens.reads_newline`: a newline is one token more where no parenthesis is open.
-/

namespace Abacus

open Token (contents depthBehind)

namespace Lexicon

variable {l : Lexicon} {inComment inComment' behind : Bool} {pos : Nat} {c : Char}
  {cs front rest : List Char} {ts before after : List Token}

/-! ## Places of a text -/

/-- The text ends in a comment that has not come to its newline. -/
def EndsInComment (front : List Char) : Prop :=
  ∃ before line, front = before ++ '#' :: line ∧ '\n' ∉ line

/-- A newline comes next, or the end of the text. -/
def LineEnds (rest : List Char) : Prop := ∀ c ∈ rest.head?, c = '\n'

/-- Between the two parts of the text there is a comment that goes on in the second one. -/
def InsideComment (front rest : List Char) : Prop := EndsInComment front ∧ ¬ LineEnds rest

/-- What comes next is layout. -/
def LayoutNext (rest : List Char) : Prop := ∃ c cs, rest = c :: cs ∧ IsLayout c

/-- None of the tokens starts before the place and ends behind it. -/
def NoneAcross (place : Nat) (ts : List Token) : Prop := ∀ t ∈ ts, t.stop ≤ place ∨ place ≤ t.pos

theorem EndsInComment.append (h : EndsInComment front) (cs : List Char) :
    EndsInComment (cs ++ front) := by
  obtain ⟨before, line, rfl, hline⟩ := h
  exact ⟨cs ++ before, line, (List.append_assoc _ _ _).symm, hline⟩

theorem Strips.pos_le (h : l.Strips inComment pos cs ts) : ∀ t ∈ ts, pos ≤ t.pos := by
  induction h with
  | nil => exact fun t ht => by cases ht
  | blank _ _ ih => exact fun t ht => Nat.le_of_succ_le (ih t ht)
  | hash _ ih => exact fun t ht => Nat.le_of_succ_le (ih t ht)
  | comment _ _ ih => exact fun t ht => Nat.le_of_succ_le (ih t ht)
  | lineEnd _ ih => exact ih
  | piece _ _ _ _ ih =>
    exact List.forall_mem_cons.mpr ⟨le_rfl, fun t ht => (Nat.le_add_right _ _).trans (ih t ht)⟩

/-! ## Stripping a text up to a place -/

/-- The first part of a text is stripped to the tokens `before`, and up to a place `behind` it that
is in a comment or not, if layout comes next there or the comment goes on. -/
structure Opens (l : Lexicon) (inComment : Bool) (pos : Nat) (front : List Char) (behind : Bool)
    (before : List Token) : Prop where
  pos_lt : ∀ t ∈ before, t.pos < pos + front.length
  comment : behind → inComment ∧ '\n' ∉ front ∨ EndsInComment front
  strips : ∀ {rest after}, behind ∨ LayoutNext rest →
    l.Strips behind (pos + front.length) rest after →
    l.Strips inComment pos (front ++ rest) (before ++ after)

theorem Opens.nil : l.Opens inComment pos [] inComment [] where
  pos_lt t ht := by cases ht
  comment h := .inl ⟨h, List.not_mem_nil⟩
  strips _ h := h

theorem add_length_cons (pos : Nat) (c : Char) (cs : List Char) :
    pos + (c :: cs).length = pos + 1 + cs.length := by
  rw [List.length_cons]
  omega

/-- A character of the layout in front. -/
theorem Opens.cons (h : l.Opens inComment' (pos + 1) front behind before)
    (hstep : ∀ {cs ts}, l.Strips inComment' (pos + 1) cs ts → l.Strips inComment pos (c :: cs) ts)
    (hcomment : inComment' → '\n' ∉ front →
      inComment ∧ '\n' ∉ c :: front ∨ EndsInComment (c :: front)) :
    l.Opens inComment pos (c :: front) behind before where
  pos_lt t ht := by
    rw [add_length_cons]
    exact h.pos_lt t ht
  comment hbehind := by
    rcases h.comment hbehind with ⟨hin, hfront⟩ | hfront
    · exact hcomment hin hfront
    · exact .inr (hfront.append [c])
  strips hnext hrest := by
    rw [add_length_cons] at hrest
    exact hstep (h.strips hnext hrest)

theorem Opens.lineEnd (h : l.Opens false pos ('\n' :: front) behind before) :
    l.Opens true pos ('\n' :: front) behind before where
  pos_lt := h.pos_lt
  comment hbehind := by
    rcases h.comment hbehind with ⟨hin, -⟩ | hfront
    · cases hin
    · exact .inr hfront
  strips hnext hrest := .lineEnd (h.strips hnext hrest)

/-- A piece in front is cut off in the same way whatever is behind the place. -/
theorem Opens.piece (hl : l.LayoutFree) {kind : TokenKind} {run : List Char} (hk : kind ≠ .blank)
    (hne : run ≠ []) (hnext : l.next? (run ++ (front ++ rest)) = some (kind, run))
    (h : l.Opens false (pos + run.length) front behind before) :
    l.Opens false pos (run ++ front) behind (⟨kind, String.ofList run, pos⟩ :: before) where
  pos_lt := by
    rw [List.length_append, ← Nat.add_assoc]
    have hpos := List.length_pos_iff.mpr hne
    exact List.forall_mem_cons.mpr ⟨by dsimp only; omega, h.pos_lt⟩
  comment hbehind := by
    rcases h.comment hbehind with ⟨hin, -⟩ | hfront
    · cases hin
    · exact .inr (hfront.append run)
  -- What follows the piece has to be layout for the piece to end where it did, so the text behind
  -- it is cut at its first layout character.
  strips {rest' after} hrest' hstrips := by
    rw [List.length_append, ← Nat.add_assoc] at hstrips
    have hbehind := h.strips hrest' hstrips
    -- The piece and some text behind it stand in front of layout.
    obtain ⟨between, c, more, hfront, hpre, hc⟩ : ∃ between c more,
        front ++ rest' = between ++ c :: more ∧ between <+: front ∧ IsLayout c := by
      rcases hrest' with hcomment | ⟨c, more, rfl, hc⟩
      · rcases h.comment hcomment with ⟨hin, -⟩ | ⟨between, line, rfl, -⟩
        · cases hin
        · exact ⟨between, '#', line ++ rest', by simp, List.prefix_append _ _, .inr (.inl rfl)⟩
      · exact ⟨front, c, more, rfl, List.prefix_rfl, hc⟩
    obtain ⟨more', rfl⟩ := hpre
    have halone : l.next? (run ++ between) = some (kind, run) := by
      have htake := (next?_local l _ (run ++ between).length).2 kind run hnext (by simp)
      rw [show run ++ (between ++ more' ++ rest) = run ++ between ++ (more' ++ rest) by simp,
        List.take_left] at htake
      exact htake
    rw [List.append_assoc, List.cons_append]
    refine .piece hk hne ?_ hbehind
    rw [hfront, ← List.append_assoc]
    exact next?_append_layout hl (List.append_ne_nil_of_left_ne_nil hne _) hk halone hc more

/-- At a place that is not inside of a token, the tokens are those in front of it and those behind
it. -/
def SplitsAt (l : Lexicon) (inComment : Bool) (pos : Nat) (front rest : List Char)
    (ts : List Token) : Prop :=
  ∃ behind before after, ts = before ++ after ∧ l.Opens inComment pos front behind before ∧
    l.Strips behind (pos + front.length) rest after

theorem Strips.splitsAt_nil (h : l.Strips inComment pos rest ts) :
    l.SplitsAt inComment pos [] rest ts :=
  ⟨inComment, [], ts, rfl, .nil, h⟩

theorem SplitsAt.cons (h : l.SplitsAt inComment' (pos + 1) front rest ts)
    (hstep : ∀ {cs ts}, l.Strips inComment' (pos + 1) cs ts → l.Strips inComment pos (c :: cs) ts)
    (hcomment : inComment' → '\n' ∉ front →
      inComment ∧ '\n' ∉ c :: front ∨ EndsInComment (c :: front)) :
    l.SplitsAt inComment pos (c :: front) rest ts := by
  obtain ⟨behind, before, after, hts, hopens, hrest⟩ := h
  rw [← add_length_cons pos c] at hrest
  exact ⟨behind, before, after, hts, hopens.cons hstep hcomment, hrest⟩

theorem Strips.splitsAt (hl : l.LayoutFree) (h : l.Strips inComment pos (front ++ rest) ts)
    (hplace : NoneAcross (pos + front.length) ts) : l.SplitsAt inComment pos front rest ts := by
  generalize hcs : front ++ rest = cs at h
  -- The induction is on the scan. At each step either nothing of the front is left, and the seam is
  -- here, or the step consumes characters of the front only.
  induction h generalizing front with
  | nil =>
    obtain ⟨rfl, rfl⟩ := List.append_eq_nil_iff.mp hcs
    exact Strips.nil.splitsAt_nil
  | blank hc h ih =>
    cases front with
    | nil =>
      cases hcs
      exact (Strips.blank hc h).splitsAt_nil
    | cons c front =>
      cases hcs
      rw [add_length_cons] at hplace
      exact (ih hplace rfl).cons (.blank hc) fun hin => by cases hin
  | hash h ih =>
    cases front with
    | nil =>
      cases hcs
      exact (Strips.hash h).splitsAt_nil
    | cons c front =>
      cases hcs
      rw [add_length_cons] at hplace
      exact (ih hplace rfl).cons .hash fun _ hfront => .inr ⟨[], front, rfl, hfront⟩
  | comment hc h ih =>
    cases front with
    | nil =>
      cases hcs
      exact (Strips.comment hc h).splitsAt_nil
    | cons c front =>
      cases hcs
      rw [add_length_cons] at hplace
      refine (ih hplace rfl).cons (.comment hc) fun _ hfront => .inl ⟨rfl, ?_⟩
      exact List.not_mem_cons_of_ne_of_not_mem hc.symm hfront
  | lineEnd h ih =>
    cases front with
    | nil =>
      cases hcs
      exact (Strips.lineEnd h).splitsAt_nil
    | cons c front =>
      cases hcs
      obtain ⟨behind, before, after, hts, hopens, hrest⟩ := ih hplace rfl
      exact ⟨behind, before, after, hts, hopens.lineEnd, hrest⟩
  | @piece pos kind run cs ts hk hne hnext h ih =>
    obtain ⟨ht, hts⟩ := List.forall_mem_cons.mp hplace
    cases front with
    | nil =>
      cases hcs
      exact (Strips.piece hk hne hnext h).splitsAt_nil
    | cons c front =>
      -- No piece lies across the seam, so the one scanned here is a prefix of the front.
      have hrun : run <+: c :: front := by
        refine List.prefix_of_prefix_length_le ⟨cs, hcs.symm⟩ ⟨rest, rfl⟩ ?_
        rw [Token.stop, length_ofList] at ht
        dsimp only at ht
        rw [List.length_cons] at ht ⊢
        omega
      obtain ⟨front', hfront⟩ := hrun
      rw [← hfront, List.append_assoc, List.append_cancel_left_eq] at hcs
      subst hcs
      rw [← hfront, List.length_append, ← Nat.add_assoc] at hts
      obtain ⟨behind, before, after, rfl, hopens, hrest⟩ := ih hts rfl
      rw [← hfront]
      refine ⟨behind, _, after, rfl, hopens.piece hl hk hne hnext, ?_⟩
      rwa [List.length_append, ← Nat.add_assoc]

/-! ## Putting something in between -/

theorem Strips.blanks {run : List Char} (hrun : ∀ c ∈ run, isBlank c)
    (h : l.Strips behind (pos + run.length) rest ts) : l.Strips behind pos (run ++ rest) ts := by
  induction run generalizing pos with
  | nil => exact h
  | cons c run ih =>
    obtain ⟨hc, hrun⟩ := List.forall_mem_cons.mp hrun
    rw [add_length_cons] at h
    have hn : c ≠ '\n' := by
      rintro rfl
      exact absurd hc (by decide)
    cases behind with
    | true => exact .comment hn (ih hrun h)
    | false => exact .blank hc (ih hrun h)

theorem Strips.commentLine {run : List Char} (hrun : '\n' ∉ run)
    (h : l.Strips true (pos + run.length) rest ts) : l.Strips true pos (run ++ rest) ts := by
  induction run generalizing pos with
  | nil => exact h
  | cons c run ih =>
    rw [add_length_cons] at h
    have hn : c ≠ '\n' := fun hc => hrun (hc ▸ List.mem_cons_self)
    exact .comment hn (ih (fun hmem => hrun (List.mem_cons_of_mem c hmem)) h)

/-- Where a line ends, it does not matter whether it ends in a comment. -/
theorem Strips.of_lineEnds (hrest : LineEnds rest) (h : l.Strips behind pos rest ts)
    (behind' : Bool) : l.Strips behind' pos rest ts := by
  cases rest with
  | nil =>
    rw [h.eq_nil]
    exact .nil
  | cons c rest =>
    obtain rfl : c = '\n' := hrest c rfl
    have houtside : l.Strips false pos ('\n' :: rest) ts := by
      cases behind with
      | false => exact h
      | true =>
        cases h with
        | comment hc => exact absurd rfl hc
        | lineEnd h => exact h
    cases behind' with
    | true => exact .lineEnd houtside
    | false => exact houtside

theorem Strips.newline (h : l.Strips false (pos + 1) rest ts) (behind : Bool) :
    l.Strips behind pos ('\n' :: rest) (⟨.newline, "\n", pos⟩ :: ts) := by
  have hnewline : l.Strips false pos (['\n'] ++ rest) (⟨.newline, "\n", pos⟩ :: ts) :=
    .piece (by simp) (List.cons_ne_nil _ _) (next?_newline rest) h
  cases behind with
  | true => exact .lineEnd hnewline
  | false => exact hnewline

theorem Strips.hashLine {run : List Char} (hrun : '\n' ∉ run)
    (h : l.Strips true (pos + 1 + run.length) rest ts) (behind : Bool) :
    l.Strips behind pos ('#' :: (run ++ rest)) ts := by
  have hline : l.Strips true (pos + 1) (run ++ rest) ts := .commentLine hrun h
  cases behind with
  | true => exact .comment (by decide) hline
  | false => exact .hash hline

/-! ## Sources -/

/-- The source is read as tokens of these kinds and texts. -/
def Reads (l : Lexicon) (source : String) (ks : List (TokenKind × String)) : Prop :=
  ∃ ts, l.tokens source = .ok ts ∧ contents ts = ks

/-- The tokens of a source divide at a place: those in front end there or before it, and those
behind start there or later. -/
structure DividesAt (place : Nat) (ts before behind : List Token) : Prop where
  eq_append : ts = before ++ behind
  before : ∀ t ∈ before, t.pos < place ∧ t.stop ≤ place
  behind : ∀ t ∈ behind, place ≤ t.pos

theorem DividesAt.before_eq {place : Nat} {behind : List Token}
    (h : DividesAt place ts before behind) : before = ts.filter (·.pos < place) := by
  rw [h.eq_append, List.filter_append, List.filter_eq_self.mpr, List.filter_eq_nil_iff.mpr,
    List.append_nil]
  · exact fun t ht => by simpa using h.behind t ht
  · exact fun t ht => by simpa using (h.before t ht).1

theorem mem_dropLayout_or_newline {t : Token} (ht : t ∈ ts) (hk : t.kind ≠ .blank) (depth : Nat) :
    t ∈ dropLayout depth ts ∨ t.kind = .newline := by
  induction ts generalizing depth with
  | nil => cases ht
  | cons u us ih =>
    rw [dropLayout_cons]
    rcases List.mem_cons.mp ht with rfl | ht
    · split
      · rename_i hlayout
        exact .inr (hlayout.resolve_left hk).1
      · exact .inl List.mem_cons_self
    · split
      · exact ih ht depth
      · exact (ih ht _).imp_left (List.mem_cons_of_mem u)

theorem IsPiece.length_of_newline {t : Token} (h : l.IsPiece t) (hk : t.kind = .newline) :
    t.text.length = 1 := by
  have hnext := h.next?
  rw [hk] at hnext
  obtain ⟨rest, -, hmax⟩ := maximal_of_next? hnext
  rw [← String.length_toList]
  exact congrArg List.length (show t.text.toList = ['\n'] from hmax)

/-- What stands in front of a place of a source and behind it: newlines in parentheses are left. -/
theorem splitsAt_of_tokens (hl : l.LayoutFree) {front rest : String}
    (h : l.tokens (front ++ rest) = .ok ts) (hplace : NoneAcross front.length ts) :
    ∃ behind before after, l.Opens false 0 front.toList behind before ∧
      l.Strips behind front.length rest.toList after ∧
      DividesAt front.length ts (dropLayout 0 before)
        (dropLayout (depthBehind 0 before) after ++ [Token.endAt (front ++ rest).length]) := by
  obtain ⟨ps, hps, rfl⟩ := tokens_ok_iff_strips.mp h
  rw [String.toList_append] at hps
  have hacross : NoneAcross (0 + front.toList.length) ps := by
    -- The hypothesis speaks of the tokens that are kept. A newline that was dropped is one
    -- character long and cannot lie across the seam either.
    intro t ht
    rw [Nat.zero_add, String.length_toList]
    have hpiece := hps.isPiece t ht
    rcases mem_dropLayout_or_newline ht hpiece.not_blank 0 with hmem | hk
    · exact hplace t (List.mem_append_left _ hmem)
    · have hlen := hpiece.length_of_newline hk
      unfold Token.stop
      omega
  obtain ⟨behind, before, after, rfl, hopens, hrest⟩ := hps.splitsAt hl hacross
  rw [Nat.zero_add, String.length_toList] at hrest
  refine ⟨behind, before, after, hopens, hrest, ?_, fun t ht => ?_, fun t ht => ?_⟩
  · rw [dropLayout_append, List.append_assoc]
  · have hmem := (mem_of_mem_dropLayout ht).1
    have hlt := hopens.pos_lt t hmem
    rw [Nat.zero_add, String.length_toList] at hlt
    refine ⟨hlt, (hplace t (List.mem_append_left _ ?_)).resolve_right (Nat.not_le_of_lt hlt)⟩
    rw [dropLayout_append]
    exact List.mem_append_left _ ht
  · rcases List.mem_append.mp ht with ht | ht
    · exact hrest.pos_le t (mem_of_mem_dropLayout ht).1
    · rw [List.mem_singleton.mp ht, Token.endAt, String.length_append]
      exact Nat.le_add_right _ _

/-- Reading goes on with another text from a place on. -/
theorem Opens.reads {front rest : String} (h : l.Opens false 0 front.toList behind before)
    (hnext : behind ∨ LayoutNext rest.toList)
    (hrest : l.Strips behind front.length rest.toList after) :
    l.Reads (front ++ rest) (contents (dropLayout 0 before) ++
      contents (dropLayout (depthBehind 0 before) after) ++ [(.endOfText, "")]) := by
  have hstrips := h.strips hnext (by rwa [Nat.zero_add, String.length_toList])
  rw [← String.toList_append] at hstrips
  refine ⟨_, tokens_ok_iff_strips.mpr ⟨_, hstrips, rfl⟩, ?_⟩
  rw [dropLayout_append]
  unfold contents
  rw [List.map_append, List.map_append]
  rfl

section Between

variable {front rest : String} (h : l.Opens false 0 front.toList behind before)
include h

/-- A text of layout between both parts of a source, behind which the second part is stripped. -/
theorem Opens.reads_between {between : String} (hnext : LayoutNext between.toList)
    (hrest : l.Strips behind front.length (between.toList ++ rest.toList) after) :
    l.Reads (front ++ between ++ rest) (contents (dropLayout 0 before) ++
      contents (dropLayout (depthBehind 0 before) after) ++ [(.endOfText, "")]) := by
  obtain ⟨c, cs, hcs, hc⟩ := hnext
  have hlayout : LayoutNext (between ++ rest).toList := by
    rw [String.toList_append, hcs]
    exact ⟨c, cs ++ rest.toList, rfl, hc⟩
  rw [← String.toList_append] at hrest
  rw [String.append_assoc]
  exact h.reads (.inr hlayout) hrest

theorem Opens.reads_blanks (hrest : l.Strips behind front.length rest.toList after)
    {blanks : String} (hne : blanks ≠ "") (hblanks : ∀ c ∈ blanks.toList, isBlank c) :
    l.Reads (front ++ blanks ++ rest) (contents (dropLayout 0 before) ++
      contents (dropLayout (depthBehind 0 before) after) ++ [(.endOfText, "")]) := by
  obtain ⟨after', hafter, heq⟩ := hrest.moved (front.length + blanks.toList.length)
  have hnext : LayoutNext blanks.toList := by
    cases hcs : blanks.toList with
    | nil => exact absurd (String.toList_eq_nil_iff.mp hcs) hne
    | cons c cs => exact ⟨c, cs, rfl, .inl (hblanks c (hcs ▸ List.mem_cons_self))⟩
  rw [← dropLayout_contents heq]
  exact h.reads_between hnext (hafter.blanks hblanks)

theorem Opens.reads_comment (hrest : l.Strips behind front.length rest.toList after)
    (hends : LineEnds rest.toList) {comment : String} (hcomment : '\n' ∉ comment.toList) :
    l.Reads (front ++ ("#" ++ comment) ++ rest) (contents (dropLayout 0 before) ++
      contents (dropLayout (depthBehind 0 before) after) ++ [(.endOfText, "")]) := by
  obtain ⟨after', hafter, heq⟩ := hrest.moved (front.length + 1 + comment.toList.length)
  have hcs : ("#" ++ comment).toList = '#' :: comment.toList := by
    rw [String.toList_append]
    rfl
  rw [← dropLayout_contents heq]
  refine h.reads_between ⟨'#', comment.toList, hcs, .inr (.inl rfl)⟩ ?_
  rw [hcs]
  exact (hafter.of_lineEnds hends true).hashLine hcomment behind

/-- A newline is a token outside of all parentheses, and layout inside. -/
theorem Opens.reads_newline (hrest : l.Strips behind front.length rest.toList after)
    (hplace : ¬ InsideComment front.toList rest.toList) :
    l.Reads (front ++ "\n" ++ rest) (contents (dropLayout 0 before) ++
      ((if depthBehind 0 before = 0 then [(.newline, "\n")] else []) ++
        contents (dropLayout (depthBehind 0 before) after)) ++ [(.endOfText, "")]) := by
  have houtside : l.Strips false front.length rest.toList after := by
    cases behind with
    | false => exact hrest
    | true =>
      rcases h.comment rfl with ⟨hin, -⟩ | hcomment
      · cases hin
      · have hends : LineEnds rest.toList := by
          by_contra hends
          exact hplace ⟨hcomment, hends⟩
        exact hrest.of_lineEnds hends false
  obtain ⟨after', hafter, heq⟩ := houtside.moved (front.length + 1)
  have hnext : LayoutNext "\n".toList := ⟨'\n', [], rfl, .inr (.inr rfl)⟩
  have hreads := h.reads_between hnext (hafter.newline behind)
  rw [← dropLayout_contents heq]
  rw [dropLayout_cons] at hreads
  by_cases hdepth : depthBehind 0 before = 0
  · rw [if_pos hdepth]
    rw [if_neg (by simp [hdepth])] at hreads
    exact hreads
  · rw [if_neg hdepth]
    rw [if_pos (.inr ⟨rfl, Nat.pos_of_ne_zero hdepth⟩)] at hreads
    exact hreads

end Between

end Lexicon

end Abacus
