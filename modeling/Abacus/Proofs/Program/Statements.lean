import Abacus.Proofs.Program.Failures

/-!
# Statements

`SpellsProgram ts p`: the tokens `ts` write the statements of `p`, with separators between two
statements and any number of them at both ends. A statement is read exactly as it is spelled
(`stmt_complete`, `stmt_sound`), up to a separator or the end of the text.
-/

namespace Abacus

/-- The tokens write the statement. -/
inductive SpellsStmt : List Token → Stmt → Prop
  | definition {d t l e : Token} {ps ts : List Token} {names : List String} {x : Expr}
      (hd : d.is .keyword "def") (ht : t.isName) (hl : l.is .delimiter "(")
      (hps : SpellsParams ps names) (he : e.is .operator "=") (hx : Spells ts (.expr x)) :
      SpellsStmt (d :: t :: l :: (ps ++ e :: ts)) (.assign t.text (.lambda names x))
  | assign {t e : Token} {ts : List Token} {x : Expr} (ht : t.isName)
      (hd : t.is .keyword "def" = false) (he : e.is .operator "=") (hx : Spells ts (.expr x)) :
      SpellsStmt (t :: e :: ts) (.assign t.text x)
  | expr {ts : List Token} {x : Expr} (hx : Spells ts (.expr x)) : SpellsStmt ts (.expr x)

/-- All of the tokens separate statements. -/
def Separators (ts : List Token) : Prop := ∀ t ∈ ts, t.isSeparator

instance : DecidablePred Separators := fun ts =>
  List.decidableBAll (fun t : Token => t.isSeparator) ts

theorem separators_nil : Separators [] := fun t ht => by cases ht

/-- The tokens write one or more statements, with separators between two of them. -/
inductive SpellsStmts : List Token → List Stmt → Prop
  | last {ts : List Token} {s : Stmt} (hs : SpellsStmt ts s) : SpellsStmts ts [s]
  | more {t : Token} {ts seps us : List Token} {s : Stmt} {ss : List Stmt} (hs : SpellsStmt ts s)
      (ht : t.isSeparator) (hseps : Separators seps) (hss : SpellsStmts us ss) :
      SpellsStmts (ts ++ t :: (seps ++ us)) (s :: ss)

/-- The tokens write the program. -/
inductive SpellsProgram : List Token → Program → Prop
  | blank {seps : List Token} (hseps : Separators seps) : SpellsProgram seps ⟨[]⟩
  | stmts {before ts behind : List Token} {ss : List Stmt} (hbefore : Separators before)
      (hss : SpellsStmts ts ss) (hbehind : Separators behind) :
      SpellsProgram (before ++ (ts ++ behind)) ⟨ss⟩

/-- The tokens write a single expression. -/
def SpellsSingle (us : List Token) (x : Expr) : Prop :=
  ∃ before ts behind, us = before ++ (ts ++ behind) ∧ Separators before ∧ Spells ts (.expr x) ∧
    Separators behind

/-! ## Programs behind one another -/

section Append

variable {ts us seps seps' : List Token} {t : Token}

theorem Separators.append_cons (h : Separators seps) (ht : t.isSeparator) (h' : Separators seps') :
    Separators (seps ++ t :: seps') :=
  List.forall_mem_append.mpr ⟨h, List.forall_mem_cons.mpr ⟨ht, h'⟩⟩

theorem SpellsStmts.append {ss ss' : List Stmt} (h : SpellsStmts ts ss) (hseps : Separators seps)
    (hne : seps ≠ []) (h' : SpellsStmts us ss') : SpellsStmts (ts ++ (seps ++ us)) (ss ++ ss') := by
  induction h with
  | last hs =>
    cases seps with
    | nil => exact absurd rfl hne
    | cons t seps =>
      obtain ⟨ht, hseps⟩ := List.forall_mem_cons.mp hseps
      exact .more hs ht hseps h'
  | @more t ts seps₁ us₁ s ss hs ht hseps₁ _ ih =>
    rw [show ts ++ t :: (seps₁ ++ us₁) ++ (seps ++ us) =
      ts ++ t :: (seps₁ ++ (us₁ ++ (seps ++ us))) by simp]
    exact .more hs ht hseps₁ ih

/-- The separators behind the first program, the one between the programs and those in front of the
second one are separators between two statements. -/
theorem SpellsProgram.append {p q : Program} (h : SpellsProgram ts p) (ht : t.isSeparator)
    (h' : SpellsProgram us q) :
    SpellsProgram (ts ++ t :: us) ⟨p.statements ++ q.statements⟩ := by
  cases h with
  | blank hseps =>
    cases h' with
    | blank hseps' => exact .blank (hseps.append_cons ht hseps')
    | @stmts before ss behind _ hbefore hss hbehind =>
      rw [show ts ++ t :: (before ++ (ss ++ behind)) =
        (ts ++ t :: before) ++ (ss ++ behind) by simp]
      exact .stmts (hseps.append_cons ht hbefore) hss hbehind
  | @stmts before ss behind _ hbefore hss hbehind =>
    cases h' with
    | blank hseps' =>
      rw [show before ++ (ss ++ behind) ++ t :: us =
        before ++ (ss ++ (behind ++ t :: us)) by simp, List.append_nil]
      exact .stmts hbefore hss (hbehind.append_cons ht hseps')
    | @stmts before' ss' behind' _ hbefore' hss' hbehind' =>
      rw [show before ++ (ss ++ behind) ++ t :: (before' ++ (ss' ++ behind')) =
        before ++ (ss ++ ((behind ++ t :: before') ++ ss') ++ behind') by simp]
      have hseps := hbehind.append_cons ht hbefore'
      exact .stmts hbefore (hss.append hseps (by simp) hss') hbehind'

end Append

namespace Parser

/-! ## What follows a statement -/

/-- What comes next ends a statement. -/
def EndsStmt (rest : List Token) : Prop := ∀ t ∈ rest.head?, t.isEnd ∨ t.isSeparator

theorem kind_of_endsStmt {t : Token} (h : t.isEnd ∨ t.isSeparator) :
    t.kind ≠ .operator ∧ t.kind ≠ .keyword ∧ (t.kind = .delimiter → t.text = ";") := by
  have hkind : t.kind = .endOfText ∨ t.kind = .newline ∨ t.is .delimiter ";" :=
    h.imp Token.kind_of_isEnd Token.kind_of_isSeparator
  rcases hkind with hk | hk | hk
  · simp [hk]
  · simp [hk]
  · simp [Token.is_iff.mp hk]

/-- What ends a statement ends an expression. -/
theorem EndsStmt.ends {rest : List Token} (h : EndsStmt rest) : Ends rest := by
  constructor
  · intro t ht
    obtain ⟨ho, -, hd⟩ := kind_of_endsStmt (h t ht)
    refine ⟨Bool.eq_false_iff.mpr fun hl => ?_, Token.is_of_kind_ne ho⟩
    have := hd (Token.is_iff.mp hl).1
    rw [(Token.is_iff.mp hl).2] at this
    exact absurd this (by decide)
  · intro t ht
    obtain ⟨ho, hk, -⟩ := kind_of_endsStmt (h t ht)
    exact Token.binaryOp?_of_kind ho hk

theorem endsStmt_of_separators {seps : List Token} {e : Token} (hseps : Separators seps)
    (he : e.isEnd) : EndsStmt (seps ++ [e]) := by
  cases seps with
  | nil => exact fun t ht => by cases ht; exact .inl he
  | cons s ss => exact fun t ht => by cases ht; exact .inr (hseps s List.mem_cons_self)

/-! ## One statement -/

theorem exprStmt_of_expr {ts rest : List Token} {x : Expr} (h : Gives (expr ts) x rest) :
    Gives (exprStmt ts) (.expr x) rest := by
  obtain ⟨h, hx⟩ := h
  exact ⟨h, by rw [exprStmt, hx]⟩

/-- A name, parameters in parentheses, an equals sign and a body give the assignment of a function.
-/
theorem definition_gives {t l e : Token} {us₁ us₂ rest : List Token} {names : List String}
    {x : Expr} (ht : t.isName) (hl : l.is .delimiter "(")
    (hps : Gives (params us₁) names (e :: us₂)) (he : e.is .operator "=")
    (hx : Gives (expr us₂) x rest) :
    Gives (definition (t :: l :: us₁)) (.assign t.text (.lambda names x)) rest := by
  obtain ⟨h₁, hps⟩ := hps
  obtain ⟨h₂, hx⟩ := hx
  refine ⟨by clear hps hx; simp only [List.length_cons] at *; omega, ?_⟩
  simp only [definition, name, ht, expect, hl, hps, he, hx, ↓reduceIte]

theorem name_ok {ts rest : List Token} {n : String} (h : Gives (name ts) n rest) :
    ∃ t, ts = t :: rest ∧ n = t.text ∧ t.isName := by
  obtain ⟨_, h⟩ := h
  cases ts with
  | nil => cases h
  | cons t us =>
    rw [name] at h
    split at h
    · rename_i ht
      cases h
      exact ⟨t, rfl, rfl, ht⟩
    · cases h

theorem name_error {ts : List Token} {e : ParseError} (h : name ts = .error e) :
    e = unexpected .functionName ts := by
  cases ts with
  | nil => cases h; rfl
  | cons t us =>
    rw [name] at h
    split at h
    · cases h
    · cases h; rfl

/-- A definition that is read is spelled by the tokens in front of what is left. -/
theorem definition_sound {ts rest : List Token} {s : Stmt} (h : Gives (definition ts) s rest) :
    ∃ t l e ps us names x, ts = t :: l :: (ps ++ e :: (us ++ rest)) ∧
      s = .assign t.text (.lambda names x) ∧ t.isName ∧ l.is .delimiter "(" ∧
      SpellsParams ps names ∧ e.is .operator "=" ∧ Spells us (.expr x) := by
  obtain ⟨_, h⟩ := h
  rw [definition] at h
  split at h
  · cases h
  rename_i hname
  split at h
  · cases h
  rename_i hl
  split at h
  · cases h
  rename_i hps
  split at h
  · cases h
  rename_i he
  split at h
  · cases h
  rename_i hx
  cases h
  obtain ⟨t, rfl, rfl, ht⟩ := name_ok ⟨_, hname⟩
  obtain ⟨rfl, hl'⟩ := expect_ok ⟨_, hl⟩
  obtain ⟨ps, rfl, hps'⟩ := params_sound ⟨_, hps⟩
  obtain ⟨rfl, he'⟩ := expect_ok ⟨_, he⟩
  obtain ⟨us, rfl, hus, -⟩ := expr_sound ⟨_, hx⟩
  exact ⟨t, _, _, ps, us, _, _, rfl, rfl, ht, hl', hps', he', hus⟩

/-- What starts neither a definition nor an assignment is an expression. -/
theorem stmt_eq_exprStmt {t : Token} {us : List Token} (hd : t.is .keyword "def" = false)
    (ha : ∀ u ∈ us.head?, (t.isName && u.is .operator "=") = false) :
    stmt (t :: us) = exprStmt (t :: us) := by
  cases us with
  | nil => simp only [stmt, hd, Bool.false_eq_true, ↓reduceIte]
  | cons u us => simp only [stmt, hd, ha u rfl, Bool.false_eq_true, ↓reduceIte]

/-- A statement is read as it is spelled. -/
theorem stmt_complete {ts rest : List Token} {s : Stmt} (h : SpellsStmt ts s)
    (hrest : EndsStmt rest) : Gives (stmt (ts ++ rest)) s rest := by
  cases h with
  | @definition d t l e ps ts names x hd ht hl hps he hx =>
    obtain ⟨h, hdef⟩ := definition_gives ht hl (params_complete hps (e :: (ts ++ rest))) he
      (expr_complete hx hrest.ends)
    rw [show d :: t :: l :: (ps ++ e :: ts) ++ rest =
      d :: t :: l :: (ps ++ e :: (ts ++ rest)) by simp]
    refine ⟨by simp only [List.length_cons] at h ⊢; omega, ?_⟩
    rw [stmt, if_pos hd, hdef]
  | @assign t e ts x ht hd he hx =>
    obtain ⟨h, hx⟩ := expr_complete hx hrest.ends
    refine ⟨by simp only [List.cons_append, List.length_cons]; omega, ?_⟩
    simp only [List.cons_append, stmt, hd, ht, he, hx, Bool.and_self, ↓reduceIte,
      Bool.false_eq_true]
  | @expr _ x hx =>
    obtain ⟨t, us, rfl, ht, hname⟩ := hx.startsLike
    have hassign : ∀ u ∈ (us ++ rest).head?, (t.isName && u.is .operator "=") = false := by
      intro u hu
      apply Bool.eq_false_iff.mpr
      intro ha
      rw [Bool.and_eq_true] at ha
      cases us with
      | cons v vs => exact hname ha.1 u hu (.inr (.inr ha.2))
      | nil => exact (kind_of_endsStmt (hrest u hu)).1 (Token.is_iff.mp ha.2).1
    rw [List.cons_append, stmt_eq_exprStmt ht.is_def hassign]
    exact exprStmt_of_expr (expr_complete hx hrest.ends)

theorem exprStmt_sound {ts rest : List Token} {s : Stmt} (h : Gives (exprStmt ts) s rest) :
    ∃ us, ts = us ++ rest ∧ SpellsStmt us s := by
  obtain ⟨_, h⟩ := h
  rw [exprStmt] at h
  split at h
  · cases h
  · rename_i hx
    cases h
    obtain ⟨us, rfl, hus, -⟩ := expr_sound ⟨_, hx⟩
    exact ⟨us, rfl, .expr hus⟩

/-- What is read as a statement is spelled as one. -/
theorem stmt_sound {ts rest : List Token} {s : Stmt} (h : Gives (stmt ts) s rest) :
    ∃ us, ts = us ++ rest ∧ SpellsStmt us s := by
  obtain ⟨_, h⟩ := h
  cases ts with
  | nil => exact exprStmt_sound ⟨_, h⟩
  | cons t us =>
    rw [stmt.eq_def] at h
    simp only at h
    split at h
    · rename_i hd
      split at h
      · cases h
      rename_i hdef
      cases h
      obtain ⟨n, l, e, ps, vs, names, x, rfl, rfl, ht, hl, hps, he, hx⟩ :=
        definition_sound ⟨_, hdef⟩
      exact ⟨t :: n :: l :: (ps ++ e :: vs), by simp, .definition hd ht hl hps he hx⟩
    · rename_i hd
      split at h
      · exact exprStmt_sound ⟨_, h⟩
      · rename_i e vs _
        split at h
        · rename_i ha
          rw [Bool.and_eq_true] at ha
          split at h
          · cases h
          rename_i hx
          cases h
          obtain ⟨ws, rfl, hws, -⟩ := expr_sound ⟨_, hx⟩
          exact ⟨t :: e :: ws, rfl, .assign ha.1 (by simpa using hd) ha.2 hws⟩
        · exact exprStmt_sound ⟨_, h⟩

/-! ## Where statements fail -/

/-- The tokens write some statement. -/
def SomeStmt (ts : List Token) : Prop := ∃ s, SpellsStmt ts s

section Failures

variable {d t l e : Token} {ps ts us : List Token} {err : ParseError}

theorem SomeExpr.someStmt (h : SomeExpr ts) : SomeStmt ts := by
  obtain ⟨x, h⟩ := h
  exact ⟨_, .expr h⟩

theorem SomeExpr.assign (ht : t.isName) (hd : t.is .keyword "def" = false)
    (he : e.is .operator "=") (h : SomeExpr ts) : SomeStmt (t :: e :: ts) := by
  obtain ⟨x, h⟩ := h
  exact ⟨_, .assign ht hd he h⟩

theorem SomeExpr.definition (hd : d.is .keyword "def") (ht : t.isName) (hl : l.is .delimiter "(")
    (hps : SomeParams ps) (he : e.is .operator "=") (h : SomeExpr ts) :
    SomeStmt (d :: t :: l :: (ps ++ e :: ts)) := by
  obtain ⟨names, hps⟩ := hps
  obtain ⟨x, h⟩ := h
  exact ⟨_, .definition hd ht hl hps he h⟩

/-- With the parameters read, an equals sign and a body are all that is missing. -/
theorem SomeParams.completes_definition (hd : d.is .keyword "def") (ht : t.isName)
    (hl : l.is .delimiter "(") (hps : SomeParams ps) :
    Completes SomeStmt (d :: t :: l :: ps) :=
  ⟨_, someExpr_name.definition hd ht hl hps (piece_is .operator "=")⟩

theorem completes_definition_open (hd : d.is .keyword "def") (ht : t.isName)
    (hl : l.is .delimiter "(") : Completes SomeStmt [d, t, l] :=
  have hps : SomeParams [piece .delimiter ")"] := ⟨[], .none (piece_is _ _)⟩
  (hps.completes_definition hd ht hl).of_append [d, t, l]

theorem completes_definition_name (hd : d.is .keyword "def") (ht : t.isName) :
    Completes SomeStmt [d, t] :=
  (completes_definition_open hd ht (piece_is .delimiter "(")).of_append [d, t]

theorem completes_definition (hd : d.is .keyword "def") : Completes SomeStmt [d] :=
  (completes_definition_name hd (t := piece .identifier "f") rfl).of_append [d]

/-- Where a definition cannot be read behind its word, a statement could have been completed in
front of the place. -/
theorem definition_fails (hd : d.is .keyword "def") (hn : Numerals ts)
    (h : definition ts = .error err) : FailsAt SomeStmt (d :: ts) err := by
  rw [definition] at h
  split at h
  · rename_i he
    cases h
    -- Each step fails where it stands; what was read before it is the start of a definition.
    rw [name_error he]
    exact failsAt_behind _ (completes_definition hd) ts
  rename_i hname
  obtain ⟨t, rfl, -, ht⟩ := name_ok ⟨_, hname⟩
  split at h
  · rename_i he
    cases h
    rw [expect_error he]
    exact failsAt_behind _ (completes_definition_name hd ht) _
  rename_i hl
  obtain ⟨rfl, hopen⟩ := expect_ok ⟨_, hl⟩
  split at h
  · rename_i he
    cases h
    -- A failure inside the parameters is one of the definition, which they could still complete.
    exact (params_fails he).inside [d, t, _] fun us hus => hus.completes_definition hd ht hopen
  rename_i hps
  obtain ⟨ps, rfl, hnames⟩ := params_sound ⟨_, hps⟩
  have hparams : SomeParams ps := ⟨_, hnames⟩
  split at h
  · rename_i he
    cases h
    rw [expect_error he]
    exact failsAt_behind _ (hparams.completes_definition hd ht hopen) _
  rename_i ha
  obtain ⟨rfl, hassign⟩ := expect_ok ⟨_, ha⟩
  split at h
  · rename_i he
    cases h
    rw [List.append_cons]
    refine (expr_fails hn.tail.tail.behind.tail he).inside (d :: t :: _ :: (ps ++ [_]))
      fun us hus => .of ?_
    simpa using hus.definition hd ht hopen hparams hassign
  · cases h

theorem exprStmt_fails (hn : Numerals ts) (h : exprStmt ts = .error err) :
    FailsAt SomeStmt ts err := by
  rw [exprStmt] at h
  split at h
  · rename_i he
    cases h
    exact (expr_fails hn he).imp fun us hus => .of hus.someStmt
  · cases h

/-- Where a statement cannot be read, one could have been completed in front of the place. -/
theorem stmt_fails (hn : Numerals ts) (h : stmt ts = .error err) : FailsAt SomeStmt ts err := by
  cases ts with
  | nil => exact exprStmt_fails hn h
  | cons t us =>
    rw [stmt.eq_def] at h
    simp only at h
    split at h
    · rename_i hd
      split at h
      · rename_i he
        cases h
        exact definition_fails hd hn.tail he
      · cases h
    · rename_i hd
      split at h
      · exact exprStmt_fails hn h
      · rename_i u vs
        split at h
        · rename_i ha
          rw [Bool.and_eq_true] at ha
          split at h
          · rename_i he
            cases h
            exact (expr_fails hn.tail.tail he).inside [t, u] fun ws hws =>
              .of (hws.assign ha.1 (by simpa using hd) ha.2)
          · cases h
        · exact exprStmt_fails hn h

end Failures

end Parser

end Abacus
