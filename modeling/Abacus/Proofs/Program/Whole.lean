import Abacus.Proofs.Program.Statements

/-!
# Whole token lists

On a list that ends with the end of the text, reading a program and reading a single expression are
the relations `SpellsProgram` and `SpellsSingle` (`Program.ofTokens_iff`, `Expr.ofTokens_iff`). What
is spelled has balanced parentheses, so that the check before the reading refuses none of it.
-/

namespace Abacus

/-! ## The end of the text -/

/-- A statement stands on one line. -/
theorem SpellsStmt.noBreak {ts : List Token} {s : Stmt} (h : SpellsStmt ts s) : NoBreak ts := by
  cases h with
  | definition hd ht hl hps he hx =>
    simp [Token.isBreak_of_is hd, Token.isBreak_of_name ht, Token.isBreak_of_is hl, hps.noBreak,
      Token.isBreak_of_is he, hx.noBreak]
  | assign ht _ he hx => simp [Token.isBreak_of_name ht, Token.isBreak_of_is he, hx.noBreak]
  | expr hx => exact hx.noBreak

theorem SpellsStmt.noEnd {ts : List Token} {s : Stmt} (h : SpellsStmt ts s) : NoEnd ts :=
  h.noBreak.noEnd

/-- A statement starts with a token, and that is not a separator. -/
theorem SpellsStmt.start {ts : List Token} {s : Stmt} (h : SpellsStmt ts s) :
    ∃ t us, ts = t :: us ∧ t.isSeparator = false := by
  cases h with
  | definition hd => exact ⟨_, _, rfl, by simp [Token.isSeparator, Token.is, Token.is_iff.mp hd]⟩
  | @assign t e us _ ht =>
    refine ⟨t, e :: us, rfl, ?_⟩
    rcases Token.kind_of_isName ht with hk | hk
    · simp [Token.isSeparator, Token.is, hk]
    · simp [Token.isSeparator, Token.is, hk]
  | expr hx =>
    obtain ⟨t, us, rfl, ht, -⟩ := hx.startsLike
    exact ⟨t, us, rfl, ht.not_separator⟩

theorem Separators.noEnd {ts : List Token} (h : Separators ts) : NoEnd ts :=
  fun t ht => Token.isEnd_of_separator (h t ht)

/-- No end of the tokens stands among statements. -/
theorem SpellsStmts.noEnd {ts : List Token} {ss : List Stmt} (h : SpellsStmts ts ss) :
    NoEnd ts := by
  induction h with
  | last hs => exact hs.noEnd
  | more hs ht hseps _ ih => simp [hs.noEnd, Token.isEnd_of_separator ht, hseps.noEnd, ih]

theorem SpellsProgram.noEnd {ts : List Token} {p : Program} (h : SpellsProgram ts p) :
    NoEnd ts := by
  cases h with
  | blank hseps => exact hseps.noEnd
  | stmts hbefore hss hbehind => simp [hbefore.noEnd, hss.noEnd, hbehind.noEnd]

/-- Statements start with a token that is no separator, so that skipping separators stops there. -/
theorem SpellsStmts.start {ts : List Token} {ss : List Stmt} (h : SpellsStmts ts ss) :
    ∃ t us, ts = t :: us ∧ t.isSeparator = false := by
  cases h with
  | last hs => exact hs.start
  | more hs =>
    obtain ⟨t, us, rfl, ht⟩ := hs.start
    exact ⟨t, _, rfl, ht⟩

namespace Parser

/-! ## Programs -/

/-- All the separators in front are skipped, and nothing else. -/
theorem skipSeparators_append {seps ts : List Token} (hseps : Separators seps)
    (hts : ∀ t ∈ ts.head?, t.isSeparator = false) : skipSeparators (seps ++ ts) = ts := by
  rw [skipSeparators, List.dropWhile_append_of_pos hseps]
  cases ts with
  | nil => rfl
  | cons t us => rw [List.dropWhile_cons_of_neg (by simp [hts t rfl])]

theorem skipSeparators_end {seps : List Token} {e : Token} (hseps : Separators seps)
    (he : e.isEnd) : skipSeparators (seps ++ [e]) = [e] := by
  apply skipSeparators_append hseps
  intro t ht
  cases ht
  apply Bool.eq_false_iff.mpr
  intro h
  rw [Token.isEnd_of_separator h] at he
  cases he

/-- What is skipped are separators, and what is left starts with none. -/
theorem skipSeparators_spec (ts : List Token) :
    ∃ seps, ts = seps ++ skipSeparators ts ∧ Separators seps ∧
      ∀ t ∈ (skipSeparators ts).head?, t.isSeparator = false := by
  refine ⟨ts.takeWhile Token.isSeparator, List.takeWhile_append_dropWhile.symm,
    fun t ht => ?_, fun t ht => ?_⟩
  · exact List.all_eq_true.mp List.all_takeWhile t ht
  · have := List.head?_dropWhile_not Token.isSeparator ts
    rw [skipSeparators] at ht
    rw [Option.mem_def.mp ht] at this
    simpa using this

/-- The statements behind a first one. -/
def statementsAfter (s : Stmt) : List Token → Statements
  | [] => ⟨[s], none⟩
  | v :: vs =>
    if v.isEnd then ⟨[s], none⟩
    else if v.isSeparator then
      ⟨s :: (statementsFrom (skipSeparators vs)).read, (statementsFrom (skipSeparators vs)).failure⟩
    else ⟨[s], some (unexpected .separator (v :: vs))⟩

/-- At the end of the tokens there are no more statements. -/
theorem statementsFrom_end {e : Token} {us : List Token} (he : e.isEnd) :
    statementsFrom (e :: us) = ⟨[], none⟩ := by
  rw [statementsFrom, if_pos he]

/-- Behind a statement that could be read, reading goes on. -/
theorem statementsFrom_cons {t : Token} {us rest : List Token} {s : Stmt} (ht : t.isEnd = false)
    (hs : Gives (stmt (t :: us)) s rest) :
    statementsFrom (t :: us) = statementsAfter s rest := by
  obtain ⟨_, hs⟩ := hs
  rw [statementsFrom, if_neg (by simp [ht]), hs]
  cases rest with
  | nil => rfl
  | cons v vs => rfl

/-- The first statement that cannot be read ends the reading with its error. -/
theorem statementsFrom_error {t : Token} {us : List Token} {e : ParseError} (ht : t.isEnd = false)
    (h : stmt (t :: us) = .error e) : statementsFrom (t :: us) = ⟨[], some e⟩ := by
  rw [statementsFrom, if_neg (by simp [ht]), h]

/-- Behind the statements there are at most separators. -/
theorem statementsAfter_end {s : Stmt} {behind : List Token} {e : Token}
    (hbehind : Separators behind) (he : e.isEnd) :
    statementsAfter s (behind ++ [e]) = ⟨[s], none⟩ := by
  cases behind with
  | nil => simp only [List.nil_append, statementsAfter, he, ↓reduceIte]
  | cons b bs =>
    have hb := hbehind b List.mem_cons_self
    have hbs : Separators bs := fun t ht => hbehind t (List.mem_cons_of_mem b ht)
    simp only [List.cons_append, statementsAfter, Token.isEnd_of_separator hb, hb, ↓reduceIte,
      Bool.false_eq_true, skipSeparators_end hbs he, statementsFrom_end he]

/-- Statements are read as they are spelled. -/
theorem statementsFrom_complete {ts behind : List Token} {ss : List Stmt} {e : Token}
    (h : SpellsStmts ts ss) (hbehind : Separators behind) (he : e.isEnd) :
    statementsFrom (ts ++ (behind ++ [e])) = ⟨ss, none⟩ := by
  induction h with
  | last hs =>
    obtain ⟨t, us, rfl, -⟩ := hs.start
    have ht := (noEnd_cons.mp hs.noEnd).1
    have hread := stmt_complete hs (endsStmt_of_separators hbehind he)
    rw [List.cons_append] at hread ⊢
    rw [statementsFrom_cons ht hread, statementsAfter_end hbehind he]
  | @more v _ seps us s ss hs hv hseps hss ih =>
    obtain ⟨t, ts, rfl, -⟩ := hs.start
    have ht := (noEnd_cons.mp hs.noEnd).1
    have hskip : skipSeparators (seps ++ (us ++ (behind ++ [e]))) = us ++ (behind ++ [e]) := by
      obtain ⟨u, us, rfl, hu⟩ := hss.start
      exact skipSeparators_append hseps fun u' hu' => by cases hu'; exact hu
    have hends : EndsStmt (v :: (seps ++ (us ++ (behind ++ [e])))) :=
      fun v' hv' => by cases hv'; exact .inr hv
    have hread := stmt_complete hs hends
    rw [List.cons_append] at hread
    rw [show t :: ts ++ v :: (seps ++ us) ++ (behind ++ [e]) =
      t :: (ts ++ v :: (seps ++ (us ++ (behind ++ [e])))) by simp,
      statementsFrom_cons ht hread]
    simp only [statementsAfter, Token.isEnd_of_separator hv, hv, hskip, ih, ↓reduceIte,
      Bool.false_eq_true]

/-- The end of the text stays behind what has been read. -/
theorem rest_of_noEnd {ts us rest : List Token} {e : Token} (h : ts ++ [e] = us ++ rest)
    (hus : NoEnd us) (he : e.isEnd) : ∃ rest', rest = rest' ++ [e] ∧ ts = us ++ rest' := by
  rcases List.append_eq_append_iff.mp h with ⟨vs, rfl, hvs⟩ | ⟨vs, rfl, rfl⟩
  · cases vs with
    | nil => exact ⟨[], by simpa using hvs.symm, by simp⟩
    | cons v vs =>
      obtain ⟨rfl, -⟩ := List.cons.inj hvs
      rw [hus _ (by simp)] at he
      cases he
  · exact ⟨vs, rfl, rfl⟩

/-- What is read up to the end of the text without an error is spelled. -/
theorem statementsFrom_sound {ts : List Token} {ss : List Stmt} {e : Token}
    (h : statementsFrom (ts ++ [e]) = ⟨ss, none⟩) (hts : NoEnd ts) (he : e.isEnd) :
    ts = [] ∧ ss = [] ∨
      ∃ us behind, ts = us ++ behind ∧ SpellsStmts us ss ∧ Separators behind := by
  cases ts with
  | nil =>
    rw [List.nil_append, statementsFrom_end he] at h
    cases h
    exact .inl ⟨rfl, rfl⟩
  | cons t us =>
    have ht := (noEnd_cons.mp hts).1
    cases hs : stmt (t :: (us ++ [e])) with
    | error err =>
      rw [List.cons_append, statementsFrom_error ht hs] at h
      cases h
    | ok r =>
      obtain ⟨s, rest, hlt⟩ := r
      obtain ⟨vs, hvs, hs'⟩ := stmt_sound ⟨hlt, hs⟩
      -- The end is still ahead, since a statement holds none.
      obtain ⟨rest, rfl, hts'⟩ := rest_of_noEnd (List.cons_append ▸ hvs) hs'.noEnd he
      rw [List.cons_append, statementsFrom_cons ht ⟨hlt, hs⟩] at h
      rw [hts'] at hts ⊢
      refine .inr ?_
      cases rest with
      -- Nothing but the end is behind the statement, or a separator, or the reading fails.
      | nil =>
        rw [List.nil_append, statementsAfter, if_pos he] at h
        cases h
        exact ⟨vs, [], rfl, .last hs', separators_nil⟩
      | cons v ws =>
        have hv := (noEnd_cons.mp (noEnd_append.mp hts).2).1
        rw [List.cons_append, statementsAfter, if_neg (by simp [hv])] at h
        split at h
        · rename_i hsep
          -- The statements behind the separators are fewer tokens.
          obtain ⟨seps, hws, hseps, -⟩ := skipSeparators_spec (ws ++ [e])
          obtain ⟨ws', hskip, rfl⟩ := rest_of_noEnd hws hseps.noEnd he
          rw [hskip] at h
          have hlen : ws'.length < (t :: us).length := by
            rw [hts']; simp only [List.length_append, List.length_cons]; omega
          have hws' : NoEnd ws' := by simp only [noEnd_append, noEnd_cons] at hts; exact hts.2.2.2
          cases hmore : statementsFrom (ws' ++ [e]) with | mk read failure
          rw [hmore] at h
          cases h
          obtain ⟨rfl, rfl⟩ | ⟨us', behind, rfl, hus', hbehind⟩ :=
            statementsFrom_sound hmore hws' he
          · refine ⟨vs, v :: seps, by simp, .last hs', fun t ht => ?_⟩
            rcases List.mem_cons.mp ht with rfl | ht
            · exact hsep
            · exact hseps t ht
          · exact ⟨vs ++ v :: (seps ++ us'), behind, by simp, .more hs' hsep hseps hus', hbehind⟩
        · cases h
termination_by ts.length

/-- The tokens write some program. -/
def SomeProgram (ts : List Token) : Prop := ∃ p, SpellsProgram ts p

theorem SomeStmt.someProgram {ts : List Token} (h : SomeStmt ts) : SomeProgram ts := by
  obtain ⟨s, h⟩ := h
  have hp := SpellsProgram.stmts separators_nil (.last h) separators_nil
  rw [List.append_nil, List.nil_append] at hp
  exact ⟨_, hp⟩

/-- Programs with a separator between them make up a program. -/
theorem SomeProgram.append {ts us : List Token} {t : Token} (h : SomeProgram ts)
    (ht : t.isSeparator) (h' : SomeProgram us) : SomeProgram (ts ++ t :: us) := by
  obtain ⟨p, h⟩ := h
  obtain ⟨q, h'⟩ := h'
  exact ⟨_, h.append ht h'⟩

theorem SomeProgram.behind_separators {seps ts : List Token} (hseps : Separators seps)
    (h : SomeProgram ts) : SomeProgram (seps ++ ts) := by
  induction seps with
  | nil => exact h
  | cons t seps ih =>
    obtain ⟨ht, hseps⟩ := List.forall_mem_cons.mp hseps
    exact SomeProgram.append ⟨_, .blank separators_nil⟩ ht (ih hseps)

/-- Where the reading of statements fails, a program could have been completed in front of the
place. -/
theorem statementsFrom_fails {ts : List Token} {err : ParseError} (hn : Numerals ts)
    (h : (statementsFrom ts).failure = some err) : FailsAt SomeProgram ts err := by
  cases ts with
  | nil => rw [statementsFrom] at h; cases h
  | cons t us =>
    by_cases ht : t.isEnd
    · rw [statementsFrom_end ht] at h; cases h
    cases hs : stmt (t :: us) with
    | error err =>
      rw [statementsFrom_error (by simpa using ht) hs] at h
      cases h
      exact (stmt_fails hn hs).imp fun vs hvs => .of hvs.someProgram
    | ok r =>
      obtain ⟨s, rest, hlt⟩ := r
      obtain ⟨vs, hvs, hs'⟩ := stmt_sound ⟨hlt, hs⟩
      -- The statement by itself is a program; what follows is read behind it.
      have hstmt : SomeProgram vs := SomeStmt.someProgram ⟨s, hs'⟩
      rw [statementsFrom_cons (by simpa using ht) ⟨hlt, hs⟩] at h
      rw [hvs] at hn ⊢
      cases rest with
      | nil => cases h
      | cons v ws =>
        rw [statementsAfter] at h
        split at h
        · cases h
        split at h
        · rename_i hv
          -- The statements behind the separators are fewer tokens.
          obtain ⟨seps, hws, hseps, -⟩ := skipSeparators_spec ws
          have hlen : (skipSeparators ws).length < (t :: us).length :=
            Nat.lt_of_le_of_lt (length_skipSeparators_le ws) (Nat.lt_of_succ_lt hlt)
          have hskip : Numerals (skipSeparators ws) := by
            rw [hws] at hn
            exact hn.behind.tail.behind
          have hmore := statementsFrom_fails hskip h
          rw [hws, List.append_cons, ← List.append_assoc]
          refine hmore.inside _ fun xs hxs => .of ?_
          rw [List.append_assoc, ← List.append_cons]
          exact hstmt.append hv (hxs.behind_separators hseps)
        · cases h
          exact failsAt_behind _ (.of hstmt) _
termination_by ts.length

theorem closed_of_end {body : List Token} {e : Token} (he : e.isEnd) :
    closed (body ++ [e]) = body ++ [e] := by
  simp only [closed, List.getLast?_append, List.getLast?_singleton, Option.some_or, he, ↓reduceIte]

/-- A program is read exactly where it is spelled. -/
theorem program_iff {body : List Token} {e : Token} {p : Program} (hbody : NoEnd body)
    (he : e.isEnd) : program (body ++ [e]) = .ok p ↔ SpellsProgram body p := by
  rw [program, statements, closed_of_end he]
  constructor
  · intro h
    obtain ⟨before, hts, hbefore, -⟩ := skipSeparators_spec (body ++ [e])
    obtain ⟨ts, hskip, rfl⟩ := rest_of_noEnd hts hbefore.noEnd he
    -- Behind the first separators the body is read as statements; it is blank if there are none.
    rw [hskip] at h
    cases hread : statementsFrom (ts ++ [e]) with | mk read failure
    rw [hread] at h
    cases failure with
    | some err => cases h
    | none =>
      cases h
      obtain ⟨rfl, rfl⟩ | ⟨us, behind, rfl, hus, hbehind⟩ :=
        statementsFrom_sound hread (noEnd_append.mp hbody).2 he
      · rw [List.append_nil]
        exact .blank hbefore
      · exact .stmts hbefore hus hbehind
  · intro h
    cases h with
    | blank hseps => rw [skipSeparators_end hseps he, statementsFrom_end he]
    | @stmts before ts behind ss hbefore hss hbehind =>
      obtain ⟨t, us, rfl, ht⟩ := hss.start
      have hskip : skipSeparators (before ++ (t :: us ++ (behind ++ [e]))) =
          t :: us ++ (behind ++ [e]) :=
        skipSeparators_append hbefore fun t' ht' => by cases ht'; exact ht
      rw [show before ++ (t :: us ++ behind) ++ [e] =
        before ++ (t :: us ++ (behind ++ [e])) by simp,
        hskip, statementsFrom_complete hss hbehind he]

/-- A list is a single expression where at most separators stand behind an expression. -/
theorem single_ok_iff {ts : List Token} {x : Expr} :
    single ts = .ok x ↔ ∃ rest, Gives (expr (skipSeparators (closed ts))) x rest ∧
      ∀ t ∈ (skipSeparators rest).head?, t.isEnd := by
  constructor
  · intro h
    rw [single] at h
    split at h
    · cases h
    · rename_i y rest hlt hread
      split at h
      · rename_i hskip
        cases h
        exact ⟨rest, ⟨hlt, hread⟩, by simp [hskip]⟩
      · rename_i t us hskip
        split at h
        · rename_i ht
          cases h
          exact ⟨rest, ⟨hlt, hread⟩, by simp [hskip, ht]⟩
        · cases h
  · rintro ⟨rest, ⟨hlt, hread⟩, hrest⟩
    rw [single, hread]
    simp only
    split
    · rfl
    · rename_i t us hskip
      rw [if_pos (hrest t (by simp [hskip]))]

/-- A single expression is read exactly where it is spelled. -/
theorem single_iff {body : List Token} {e : Token} {x : Expr} (hbody : NoEnd body)
    (he : e.isEnd) : single (body ++ [e]) = .ok x ↔ SpellsSingle body x := by
  rw [single_ok_iff, closed_of_end he]
  constructor
  · -- The expression is read from behind the separators, and what it leaves must be separators
    -- only.
    rintro ⟨rest, hread, hend⟩
    obtain ⟨before, hts, hbefore, -⟩ := skipSeparators_spec (body ++ [e])
    obtain ⟨ts, hskip, rfl⟩ := rest_of_noEnd hts hbefore.noEnd he
    rw [hskip] at hread
    obtain ⟨us, hus, hx, -⟩ := expr_sound hread
    obtain ⟨rest, rfl, rfl⟩ := rest_of_noEnd hus hx.noEnd he
    obtain ⟨behind, hrest, hbehind, -⟩ := skipSeparators_spec (rest ++ [e])
    obtain ⟨more, hskip', rfl⟩ := rest_of_noEnd hrest hbehind.noEnd he
    rw [hskip'] at hend
    cases more with
    | nil => exact ⟨before, us, behind, by simp, hbefore, hx, hbehind⟩
    | cons v vs =>
      simp only [noEnd_append, noEnd_cons] at hbody
      have hv := hend v rfl
      rw [hbody.2.2.2.1] at hv
      cases hv
  · rintro ⟨before, ts, behind, rfl, hbefore, hx, hbehind⟩
    have hskip : skipSeparators (before ++ (ts ++ (behind ++ [e]))) = ts ++ (behind ++ [e]) := by
      obtain ⟨t, us, rfl, ht, -⟩ := hx.startsLike
      exact skipSeparators_append hbefore fun t' ht' => by cases ht'; exact ht.not_separator
    refine ⟨behind ++ [e], ?_, ?_⟩
    · rw [show before ++ (ts ++ behind) ++ [e] = before ++ (ts ++ (behind ++ [e])) by simp, hskip]
      exact expr_complete hx (endsStmt_of_separators hbehind he).ends
    · rw [skipSeparators_end hbehind he]
      simp [he]

/-- Where the reading of a program fails, a program could have been completed in front of the place.
-/
theorem program_fails {ts : List Token} {err : ParseError} (hn : Numerals (closed ts))
    (h : program ts = .error err) : FailsAt SomeProgram (closed ts) err := by
  rw [program] at h
  split at h
  · cases h
  · rename_i hread
    cases h
    obtain ⟨seps, hts, hseps, -⟩ := skipSeparators_spec (closed ts)
    have hfail : (statements ts).failure = some err := by rw [hread]
    rw [hts] at hn ⊢
    exact (statementsFrom_fails hn.behind hfail).inside seps fun us hus =>
      .of (hus.behind_separators hseps)

/-- The error of a program names a token of the list, or its end. -/
theorem program_error {ts : List Token} {e : ParseError} (hn : Numerals (closed ts))
    (h : program ts = .error e) : ErrorAt (closed ts) e :=
  (program_fails hn h).errorAt fun _ ⟨_, hp⟩ => hp.noEnd

/-- The tokens write some single expression. -/
def SomeSingle (ts : List Token) : Prop := ∃ x, SpellsSingle ts x

/-- Where the reading of a single expression fails, one could have been completed in front of the
place. -/
theorem single_fails {ts : List Token} {err : ParseError} (hn : Numerals (closed ts))
    (h : single ts = .error err) : FailsAt SomeSingle (closed ts) err := by
  rw [single] at h
  obtain ⟨before, hts, hbefore, -⟩ := skipSeparators_spec (closed ts)
  rw [hts] at hn ⊢
  split at h
  · rename_i hx
    cases h
    refine (expr_fails hn.behind hx).inside before ?_
    rintro us ⟨x, hx⟩
    exact .of ⟨x, before, us, [], by rw [List.append_nil], hbefore, hx, separators_nil⟩
  · rename_i rest hlt hx
    obtain ⟨us, hus, hx, -⟩ := expr_sound ⟨hlt, hx⟩
    obtain ⟨behind, hrest, hbehind, -⟩ := skipSeparators_spec rest
    have hsingle : SomeSingle (before ++ (us ++ behind)) :=
      ⟨_, before, us, behind, rfl, hbefore, hx, hbehind⟩
    rw [hus, hrest, ← List.append_assoc us, ← List.append_assoc before]
    split at h
    · cases h
    · rename_i hskip
      rw [hskip]
      split at h
      · cases h
      · cases h
        exact failsAt_behind _ (.of hsingle) _

theorem single_error {ts : List Token} {e : ParseError} (hn : Numerals (closed ts))
    (h : single ts = .error e) : ErrorAt (closed ts) e := by
  refine (single_fails hn h).errorAt fun us ⟨x, before, vs, behind, hus, hbefore, hx, hbehind⟩ => ?_
  rw [hus]
  simp [hbefore.noEnd, hx.noEnd, hbehind.noEnd]

end Parser

/-! ## Balanced parentheses -/

/-- Behind the tokens the same parentheses are open as before them. -/
def Balanced (ts : List Token) : Prop :=
  ∀ opened rest, Balance.offenderFrom opened (ts ++ rest) = Balance.offenderFrom opened rest

namespace Balanced

theorem nil : Balanced [] := fun _ _ => rfl

theorem append {ts us : List Token} (hts : Balanced ts) (hus : Balanced us) :
    Balanced (ts ++ us) := by
  intro opened rest
  rw [List.append_assoc, hts, hus]

/-- A token that is no parenthesis leaves a list balanced. -/
theorem cons {t : Token} {ts : List Token} (hl : t.is .delimiter "(" = false)
    (hr : t.is .delimiter ")" = false) (hts : Balanced ts) : Balanced (t :: ts) := by
  intro opened rest
  simp only [List.cons_append, Balance.offenderFrom, hl, hr, ↓reduceIte, Bool.false_eq_true]
  exact hts opened rest

/-- A token of another text is no parenthesis. -/
theorem cons_is {t : Token} {kind : TokenKind} {text : String} {ts : List Token}
    (h : t.is kind text) (hts : Balanced ts) (hl : text ≠ "(" := by decide)
    (hr : text ≠ ")" := by decide) : Balanced (t :: ts) :=
  hts.cons (Token.is_of_text_ne h hl) (Token.is_of_text_ne h hr)

theorem cons_kind {t : Token} {ts : List Token} (h : t.kind ≠ .delimiter) (hts : Balanced ts) :
    Balanced (t :: ts) :=
  hts.cons (Token.is_of_kind_ne h) (Token.is_of_kind_ne h)

/-- A balanced list in parentheses is balanced. -/
theorem wrap {l r : Token} {ts : List Token} (hl : l.is .delimiter "(") (hts : Balanced ts)
    (hr : r.is .delimiter ")") : Balanced (l :: (ts ++ [r])) := by
  intro opened rest
  rw [show l :: (ts ++ [r]) ++ rest = l :: (ts ++ r :: rest) by simp]
  have hne : r.is .delimiter "(" = false := Token.is_of_text_ne hr (by decide)
  simp only [hts (l :: opened) (r :: rest), hl, Balance.offenderFrom, hne, hr, ↓reduceIte,
    Bool.false_eq_true]

end Balanced

/-- Parameters are balanced but for the parenthesis that closes them. -/
theorem SpellsMoreParams.balanced {ts : List Token} {ps : List String}
    (h : SpellsMoreParams ts ps) : ∃ us r, ts = us ++ [r] ∧ Balanced us ∧ r.is .delimiter ")" := by
  induction h with
  | @last t r ht hr => exact ⟨[t], r, rfl, Balanced.nil.cons_kind (by simp [ht]), hr⟩
  | @more t c ts ps ht hc hts ih =>
    obtain ⟨us, r, rfl, hus, hr⟩ := ih
    exact ⟨t :: c :: us, r, rfl, (hus.cons_is hc).cons_kind (by simp [ht]), hr⟩

theorem SpellsParams.balanced {l : Token} {ts : List Token} {ps : List String}
    (hl : l.is .delimiter "(") (h : SpellsParams ts ps) : Balanced (l :: ts) := by
  cases h with
  | none hr => exact Balanced.nil.wrap hl hr
  | some h =>
    obtain ⟨us, r, rfl, hus, hr⟩ := h.balanced
    exact hus.wrap hl hr

/-- The parentheses of a phrase are balanced. -/
theorem Spells.balanced {ts : List Token} {φ : Phrase} (h : Spells ts φ) : Balanced ts := by
  induction h with
  | number ht | var ht => exact Balanced.nil.cons_kind (by simp [ht])
  | unary ht _ ih =>
    rcases Token.kind_of_prefixOp? ht with ⟨hk, -⟩ | hk
    · exact ih.cons_kind (by simp [hk])
    · exact ih.cons_is hk
  | callNone ht hl hr => exact (Balanced.nil.wrap hl hr).cons_kind (by simp [ht])
  | call ht hl _ hr ih => exact (ih.wrap hl hr).cons_kind (by simp [ht])
  | group hl _ hr ih => exact ih.wrap hl hr
  | conditional hi _ ht _ he _ ihx ihy ihz =>
    exact (ihx.append ((ihy.append (ihz.cons_is he)).cons_is ht)).cons_is hi
  | arrow ht ha _ ih => exact (ih.cons_is ha).cons_kind (by simp [ht])
  | lambda hl hps ha _ ih => exact (hps.balanced hl).append (ih.cons_is ha)
  | nil => exact .nil
  | cons ht _ _ _ ihx ihls =>
    exact (ihx.append ihls).cons (Token.is_of_binaryOp? ht (by decide))
      (Token.is_of_binaryOp? ht (by decide))
  | expr _ _ _ ihx ihls => exact ihx.append ihls
  | lastArg _ ih => exact ih
  | moreArgs _ hc _ ihx ihxs => exact ihx.append (ihxs.cons_is hc)

theorem Token.balanced_of_name {t : Token} {ts : List Token} (h : t.isName) (hts : Balanced ts) :
    Balanced (t :: ts) := by
  apply hts.cons_kind
  rcases Token.kind_of_isName h with hk | hk
  · simp [hk]
  · simp [hk]

theorem Separators.balanced {ts : List Token} (h : Separators ts) : Balanced ts := by
  induction ts with
  | nil => exact .nil
  | cons t ts ih =>
    have hts := ih fun u hu => h u (List.mem_cons_of_mem t hu)
    rcases Token.kind_of_isSeparator (h t List.mem_cons_self) with ht | ht
    · exact hts.cons_kind (by simp [ht])
    · exact hts.cons_is ht

/-- The parentheses of a statement are balanced. -/
theorem SpellsStmt.balanced {ts : List Token} {s : Stmt} (h : SpellsStmt ts s) : Balanced ts := by
  cases h with
  | definition hd ht hl hps he hx =>
    exact (Token.balanced_of_name ht ((hps.balanced hl).append (hx.balanced.cons_is he))).cons_is hd
  | assign ht _ he hx => exact Token.balanced_of_name ht (hx.balanced.cons_is he)
  | expr hx => exact hx.balanced

theorem SpellsStmts.balanced {ts : List Token} {ss : List Stmt} (h : SpellsStmts ts ss) :
    Balanced ts := by
  induction h with
  | last hs => exact hs.balanced
  | @more t ts seps us s ss hs ht hseps _ ih =>
    have hsep : Balanced [t] := Separators.balanced fun u hu => by simp_all
    exact hs.balanced.append (hsep.append (hseps.balanced.append ih))

/-- The parentheses of a program are balanced. -/
theorem SpellsProgram.balanced {ts : List Token} {p : Program} (h : SpellsProgram ts p) :
    Balanced ts := by
  cases h with
  | blank hseps => exact hseps.balanced
  | stmts hbefore hss hbehind =>
    exact hbefore.balanced.append (hss.balanced.append hbehind.balanced)

theorem SpellsSingle.balanced {ts : List Token} {x : Expr} (h : SpellsSingle ts x) :
    Balanced ts := by
  obtain ⟨before, us, behind, rfl, hbefore, hx, hbehind⟩ := h
  exact hbefore.balanced.append (hx.balanced.append hbehind.balanced)

/-- Balanced tokens pass the check. -/
theorem Balanced.check {body : List Token} {e : Token} (h : Balanced body) (he : e.isEnd) :
    Balance.check (body ++ [e]) = .ok () := by
  have hk : e.kind ≠ .delimiter := by simp [Token.kind_of_isEnd he]
  have hend : Balance.offender? (body ++ [e]) = none := by
    rw [Balance.offender?, h]
    exact Balanced.nil.cons_kind hk [] []
  rw [Balance.check, hend]

/-! ## Reading token lists -/

section Reading

variable {body : List Token} {e : Token}

/-- A token list is a program exactly where it spells one. -/
theorem Program.ofTokens_iff {p : Program} (hbody : NoEnd body) (he : e.isEnd) :
    Program.ofTokens (body ++ [e]) = .ok p ↔ SpellsProgram body p := by
  rw [Program.ofTokens]
  constructor
  · intro h
    split at h
    · cases h
    · exact (Parser.program_iff hbody he).mp h
  · intro h
    rw [h.balanced.check he]
    exact (Parser.program_iff hbody he).mpr h

/-- A token list is a single expression exactly where it spells one. -/
theorem Expr.ofTokens_iff {x : Expr} (hbody : NoEnd body) (he : e.isEnd) :
    Expr.ofTokens (body ++ [e]) = .ok x ↔ SpellsSingle body x := by
  rw [Expr.ofTokens]
  constructor
  · intro h
    split at h
    · cases h
    · exact (Parser.single_iff hbody he).mp h
  · intro h
    rw [h.balanced.check he]
    exact (Parser.single_iff hbody he).mpr h

/-- The error is a token that cannot stand where it stands, or the end of the text. -/
def ParseError.IsUnexpected (e : ParseError) : Prop :=
  (∃ text pos expected, e = .unexpectedToken text pos expected) ∨
    ∃ expected pos, e = .unexpectedEnd expected pos

/-- An error that names a place is one of an unexpected token or end. -/
theorem Parser.ErrorAt.isUnexpected {ts : List Token} {e : ParseError} (h : Parser.ErrorAt ts e) :
    e.IsUnexpected := by
  obtain ⟨expected, rest, -, rfl⟩ := h
  cases rest with
  | nil => exact .inr ⟨expected, none, rfl⟩
  | cons t us =>
    rw [Parser.unexpected]
    split
    · exact .inr ⟨expected, some t.pos, rfl⟩
    · exact .inl ⟨t.text, t.pos, some expected, rfl⟩

/-- The check fails with an unexpected token or end only. -/
theorem Balance.isUnexpected_of_check {ts : List Token} {e : ParseError}
    (h : Balance.check ts = .error e) : e.IsUnexpected := by
  rw [Balance.check] at h
  split at h
  · cases h
  · split at h
    · cases h; exact .inr ⟨_, _, rfl⟩
    · cases h; exact .inl ⟨_, _, _, rfl⟩

/-- A program is refused with an unexpected token or end, if its numbers are numerals. -/
theorem Program.isUnexpected_of_ofTokens {err : ParseError} (he : e.isEnd)
    (hn : Parser.Numerals (body ++ [e])) (h : Program.ofTokens (body ++ [e]) = .error err) :
    err.IsUnexpected := by
  rw [Program.ofTokens] at h
  split at h
  · rename_i hcheck
    cases h
    exact Balance.isUnexpected_of_check hcheck
  · exact (Parser.program_error (by rwa [Parser.closed_of_end he]) h).isUnexpected

/-- A single expression is refused with an unexpected token or end, if its numbers are numerals. -/
theorem Expr.isUnexpected_of_ofTokens {err : ParseError} (he : e.isEnd)
    (hn : Parser.Numerals (body ++ [e])) (h : Expr.ofTokens (body ++ [e]) = .error err) :
    err.IsUnexpected := by
  rw [Expr.ofTokens] at h
  split at h
  · rename_i hcheck
    cases h
    exact Balance.isUnexpected_of_check hcheck
  · exact (Parser.single_error (by rwa [Parser.closed_of_end he]) h).isUnexpected

end Reading

end Abacus
