import Abacus.Proofs.Token.Spans
import Abacus.Token.Balance

/-!
# Texts joined by a newline

No piece of a text reaches over a newline, since only a newline token holds one. So a text is
scanned in front of a newline as it is scanned alone, and what stands behind the newline is scanned
as if it stood at the start, but for positions. Where the parentheses of the first text pair up, the
newline between the texts is a token, and the depth behind it is zero again
(`Lexicon.tokens_joined`). A comment at the end of the first text ends at that newline.
-/

namespace Abacus

namespace Token

/-- The kinds and texts of tokens, without positions. -/
def contents (ts : List Token) : List (TokenKind × String) := ts.map content

@[simp] theorem contents_cons (t : Token) (ts : List Token) :
    contents (t :: ts) = t.content :: contents ts := rfl

/-- Tokens of the same kind and text differ in their positions only. -/
theorem eq_moved_of_content {t u : Token} (h : u.content = t.content) :
    ∃ pos, u = { t with pos := pos } := by
  obtain ⟨kind, text, pos⟩ := u
  obtain ⟨rfl, rfl⟩ := Prod.mk.inj h
  exact ⟨pos, rfl⟩

/-- Blanks and newlines are no parentheses. -/
theorem depthAfter_of_layout {t : Token} (ht : t.kind = .blank ∨ t.kind = .newline) (depth : Nat) :
    t.depthAfter depth = depth := by
  rcases ht with hk | hk
  · simp [depthAfter, is, hk]
  · simp [depthAfter, is, hk]

end Token

open Token (contents depthBehind)

/-- Where no token is to blame, each parenthesis that is open has a partner. -/
theorem Balance.depthBehind_eq_zero {opened ts : List Token}
    (h : Balance.offenderFrom opened ts = none) : depthBehind opened.length ts = 0 := by
  induction ts generalizing opened with
  | nil =>
    rw [Balance.offenderFrom, List.head?_eq_none_iff] at h
    rw [h]
    rfl
  | cons t ts ih =>
    unfold Balance.offenderFrom at h
    unfold depthBehind
    rw [List.foldl_cons, Token.depthAfter]
    split at h
    · rename_i hl
      rw [if_pos hl]
      exact ih h
    · rename_i hl
      rw [if_neg hl]
      split at h
      · rename_i hr
        rw [if_pos hr]
        cases opened with
        | nil => cases h
        | cons t' outer => exact ih h
      · rename_i hr
        rw [if_neg hr]
        exact ih h

namespace Lexicon

variable {l : Lexicon} {cs rest : List Char} {pos : Nat}

/-! ## Layout -/

theorem dropLayout_append (depth : Nat) (ts us : List Token) :
    dropLayout depth (ts ++ us) = dropLayout depth ts ++ dropLayout (depthBehind depth ts) us := by
  induction ts generalizing depth with
  | nil => rfl
  | cons t ts ih =>
    rw [List.cons_append, dropLayout_cons, dropLayout_cons, depthBehind, List.foldl_cons]
    split
    · rename_i hlayout
      rw [Token.depthAfter_of_layout (hlayout.imp id And.left), ih]
      rfl
    · rw [ih, List.cons_append]
      rfl

/-- What is dropped leaves the depth as it is. -/
theorem depthBehind_dropLayout (depth : Nat) (ts : List Token) :
    depthBehind depth (dropLayout depth ts) = depthBehind depth ts := by
  induction ts generalizing depth with
  | nil => rfl
  | cons t ts ih =>
    rw [dropLayout_cons]
    split
    · rename_i hlayout
      rw [ih, depthBehind, depthBehind, List.foldl_cons,
        Token.depthAfter_of_layout (hlayout.imp id And.left)]
    · exact ih _

/-- Positions play no part in what is layout. -/
theorem dropLayout_contents {ts us : List Token} (h : contents ts = contents us) (depth : Nat) :
    contents (dropLayout depth ts) = contents (dropLayout depth us) := by
  induction ts generalizing us depth with
  | nil =>
    rw [List.map_eq_nil_iff.mp h.symm]
  | cons t ts ih =>
    obtain ⟨u, us, rfl, ht, hts⟩ := List.map_eq_cons_iff.mp h.symm
    obtain ⟨pos, rfl⟩ := Token.eq_moved_of_content ht
    rw [dropLayout_cons, dropLayout_cons]
    dsimp only
    split
    · exact ih hts.symm depth
    · rw [Token.contents_cons, Token.contents_cons, ih hts.symm]
      rfl

/-! ## Pieces -/

theorem next?_newline (rest : List Char) : l.next? ('\n' :: rest) = some (.newline, ['\n']) := rfl

/-- A piece does not reach over a newline. -/
theorem next?_append_newline (hl : l.NoNewlines) (hne : cs ≠ []) (rest : List Char) :
    l.next? (cs ++ '\n' :: rest) = l.next? cs := by
  obtain ⟨hnone, hsome⟩ := next?_local l (cs ++ '\n' :: rest) cs.length
  rw [List.take_left] at hnone hsome
  cases h : l.next? (cs ++ '\n' :: rest) with
  | none => exact (hnone h).symm
  | some piece =>
    obtain ⟨kind, run⟩ := piece
    refine (hsome kind run h ?_).symm
    by_contra hlong
    obtain ⟨rest', hcs, hmax⟩ := maximal_of_next? h
    -- A longer piece would hold the newline and more, and there is no such piece.
    have hnewline : cs ++ ['\n'] <+: cs ++ '\n' :: rest := ⟨rest, by simp⟩
    have hrun : run <+: cs ++ '\n' :: rest := ⟨rest', hcs.symm⟩
    have hprefix : cs ++ ['\n'] <+: run := by
      refine List.prefix_of_prefix_length_le hnewline hrun ?_
      simp only [List.length_append, List.length_singleton]
      omega
    obtain ⟨more, rfl⟩ := hprefix
    have hn : '\n' ∈ cs ++ ['\n'] ++ more := by simp
    by_cases hblank : kind = .blank
    · rw [hblank] at hmax
      exact absurd (Gap.depth_pos hmax hn) (Nat.lt_irrefl 0)
    · let t : Token := ⟨kind, String.ofList (cs ++ ['\n'] ++ more), 0⟩
      have htext : t.text.toList = cs ++ ['\n'] ++ more := String.toList_ofList
      obtain ⟨-, htext'⟩ := kind_of_newline (t := t) hl (fits_of_next? h) (by rwa [htext]) hblank
        (by rwa [htext])
      rw [htext'] at htext
      have hlen := congrArg List.length htext
      have hpos := List.length_pos_iff.mpr hne
      simp at hlen
      omega

/-- Where a text is scanned to its end, it is scanned in front of a newline in the same way, and
then the newline and what stands behind it. -/
theorem scanFrom_append_newline (hl : l.NoNewlines) (pos : Nat) (cs rest : List Char)
    (h : (l.scanFrom pos cs).failure = none) :
    l.scanFrom pos (cs ++ '\n' :: rest) =
      ⟨(l.scanFrom pos cs).pieces ++
          ⟨.newline, "\n", pos + cs.length⟩ :: (l.scanFrom (pos + cs.length + 1) rest).pieces,
        (l.scanFrom (pos + cs.length + 1) rest).failure⟩ := by
  fun_induction l.scanFrom pos cs with
  | case1 pos =>
    have hne : ['\n'] ≠ [] := List.cons_ne_nil _ _
    exact scanFrom_append hne (next?_newline rest)
  | case2 => cases h
  | case3 => cases h
  | case4 pos c tail kind d ds hnext scan ih =>
    obtain ⟨behind, hcs, -⟩ := maximal_of_next? hnext
    have htail := drop_of_append hcs
    have hpiece := next?_append_newline hl (List.cons_ne_nil c tail) rest
    rw [hnext, hcs, List.append_assoc] at hpiece
    have hscan : scan = l.scanFrom (pos + ds.length + 1) behind := by
      simp only [scan, htail]
    have hlen : pos + (d :: ds ++ behind).length = pos + ds.length + 1 + behind.length := by
      simp only [List.length_append, List.length_cons]
      omega
    rw [htail] at ih
    rw [hscan] at h ⊢
    rw [hcs, List.append_assoc, scanFrom_append (List.cons_ne_nil d ds) hpiece, hlen]
    simp only [List.length_cons, ← Nat.add_assoc, ih h]
    rfl

/-- Positions play no part in what the pieces are. -/
theorem scanFrom_contents (pos pos' : Nat) (cs : List Char)
    (h : (l.scanFrom pos cs).failure = none) :
    (l.scanFrom pos' cs).failure = none ∧
      contents (l.scanFrom pos' cs).pieces = contents (l.scanFrom pos cs).pieces := by
  fun_induction l.scanFrom pos cs generalizing pos' with
  | case1 => exact ⟨by rw [scanFrom], by rw [scanFrom]⟩
  | case2 => cases h
  | case3 => cases h
  | case4 pos c tail kind d ds hnext scan ih =>
    obtain ⟨hok, hcontents⟩ := ih (pos' + ds.length + 1) h
    rw [scanFrom, hnext]
    exact ⟨hok, by rw [Token.contents_cons, Token.contents_cons, hcontents]; rfl⟩

/-! ## Sources -/

/-- The tokens of two sources joined by a newline are those of the first one, the newline and those
of the second one, where the parentheses of the first one pair up. -/
theorem tokens_joined (hl : l.NoNewlines) {source₁ source₂ : String} {body₁ body₂ : List Token}
    {e₁ e₂ : Token} (h₁ : l.tokens source₁ = .ok (body₁ ++ [e₁]))
    (h₂ : l.tokens source₂ = .ok (body₂ ++ [e₂])) (hdepth : depthBehind 0 body₁ = 0) :
    ∃ t body, l.tokens (source₁ ++ "\n" ++ source₂) =
        .ok (body₁ ++ t :: body ++ [Token.endAt (source₁ ++ "\n" ++ source₂).length]) ∧
      t.kind = .newline ∧ contents body = contents body₂ := by
  have hpieces : ∀ {source : String} {body : List Token} {e : Token},
      l.tokens source = .ok (body ++ [e]) → (l.scanFrom 0 source.toList).failure = none ∧
        dropLayout 0 (l.scanFrom 0 source.toList).pieces = body := by
    intro source body e h
    have hok := tokens_ok_iff.mp ⟨_, h⟩
    unfold tokens scan at h
    split at h
    · rename_i pieces hscan
      rw [hscan]
      exact ⟨rfl, (List.append_inj' (Except.ok.inj h) rfl).1⟩
    · cases h
  obtain ⟨hok₁, hbody₁⟩ := hpieces h₁
  obtain ⟨hok₂, hbody₂⟩ := hpieces h₂
  -- The second source stands one character behind the first, and only contents survive that.
  obtain ⟨hok, hcontents⟩ := scanFrom_contents 0 (0 + source₁.toList.length + 1) _ hok₂
  have hjoined : (source₁ ++ "\n" ++ source₂).toList =
      source₁.toList ++ '\n' :: source₂.toList := by
    simp [String.toList_append]
  have hscan := scanFrom_append_newline hl 0 source₁.toList source₂.toList hok₁
  rw [hok] at hscan
  have hzero : depthBehind 0 (l.scanFrom 0 source₁.toList).pieces = 0 := by
    rw [← depthBehind_dropLayout, hbody₁, hdepth]
  refine ⟨⟨.newline, "\n", 0 + source₁.toList.length⟩,
    dropLayout 0 (l.scanFrom (0 + source₁.toList.length + 1) source₂.toList).pieces, ?_, rfl, ?_⟩
  · unfold tokens scan
    rw [hjoined, hscan]
    simp only [dropLayout_append, hzero, hbody₁]
    rfl
  · rw [dropLayout_contents hcontents 0, hbody₂]

end Lexicon

end Abacus
