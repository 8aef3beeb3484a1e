import Abacus.Proofs.Program.Outcomes

/-!
# Where reading fails

The parser never goes past the first token with which nothing can be made of what it has read. Where
it fails, the tokens in front of the place that the error names are the start of a phrase of the
kind that it was to read (`FailsAt`), provided that all number tokens are numerals. So no error
comes late: what has been begun could have been completed.

* `Completes P ts`: some tokens behind `ts` make it what `P` says.
* `FailsAt.inside`: a failure inside a phrase is one of the phrase, if whatever could stand for the
  part completes the phrase.
* `expr_fails`, `args_fails`, ...: one lemma for each function of the parser.
* `ErrorAt`: what is left of it without the completion.
-/

namespace Abacus

namespace Parser

/-! ## Numerals -/

/-- All number tokens are numerals. -/
def Numerals (ts : List Token) : Prop :=
  ∀ t ∈ ts, t.kind = .number → (Number.read? t.text).isSome

@[simp] theorem numerals_cons {t : Token} {ts : List Token} :
    Numerals (t :: ts) ↔ (t.kind = .number → (Number.read? t.text).isSome) ∧ Numerals ts :=
  List.forall_mem_cons

@[simp] theorem numerals_append {ts us : List Token} :
    Numerals (ts ++ us) ↔ Numerals ts ∧ Numerals us :=
  List.forall_mem_append

theorem Numerals.tail {t : Token} {ts : List Token} (h : Numerals (t :: ts)) : Numerals ts :=
  (numerals_cons.mp h).2

theorem Numerals.behind {ts us : List Token} (h : Numerals (ts ++ us)) : Numerals us :=
  (numerals_append.mp h).2

/-! ## Completions -/

/-- With some tokens behind it the list is what `P` says. -/
def Completes (P : List Token → Prop) (ts : List Token) : Prop := ∃ more, P (ts ++ more)

/-- The error says what was expected at some place of the list, and what stands in front of the
place can be completed to what `P` says. -/
def FailsAt (P : List Token → Prop) (ts : List Token) (err : ParseError) : Prop :=
  ∃ expected before rest, ts = before ++ rest ∧ err = unexpected expected rest ∧
    Completes P before

section Completions

variable {P Q : List Token → Prop} {ts us : List Token} {err : ParseError}

theorem Completes.of (h : P ts) : Completes P ts := ⟨[], by rwa [List.append_nil]⟩

/-- What completes a list completes every start of it. -/
theorem Completes.of_append (ts : List Token) (h : Completes P (ts ++ us)) : Completes P ts := by
  obtain ⟨more, h⟩ := h
  exact ⟨us ++ more, by rwa [← List.append_assoc]⟩

/-- The failure is at the place behind `ts`. -/
theorem failsAt_behind (expected : Expectation) (h : Completes P ts) (rest : List Token) :
    FailsAt P (ts ++ rest) (unexpected expected rest) :=
  ⟨expected, ts, rest, rfl, rfl, h⟩

/-- The failure is at the first token. -/
theorem failsAt_first (expected : Expectation) (h : Completes P []) (ts : List Token) :
    FailsAt P ts (unexpected expected ts) :=
  failsAt_behind expected h ts

/-- What could have stood behind `front` leads on to what `Q` says. -/
theorem FailsAt.inside (h : FailsAt P ts err) (front : List Token)
    (hPQ : ∀ us, P us → Completes Q (front ++ us)) : FailsAt Q (front ++ ts) err := by
  obtain ⟨expected, before, rest, rfl, rfl, more, hP⟩ := h
  have hbefore := hPQ _ hP
  rw [← List.append_assoc] at hbefore ⊢
  exact failsAt_behind expected (hbefore.of_append _) rest

/-- A failure behind a token, where the phrase goes on from the token. -/
theorem FailsAt.cons {t : Token} (h : FailsAt P ts err)
    (hPQ : ∀ us, P us → Completes Q (t :: us)) : FailsAt Q (t :: ts) err :=
  h.inside [t] hPQ

/-- A failure inside a phrase that is the start of another one. -/
theorem FailsAt.imp (h : FailsAt P ts err) (hPQ : ∀ us, P us → Completes Q us) :
    FailsAt Q ts err :=
  h.inside [] hPQ

end Completions

/-! ## Phrases of one kind -/

/-- The tokens write some expression. -/
def SomeExpr (ts : List Token) : Prop := ∃ x, Spells ts (.expr x)

/-- The tokens write some operand. -/
def SomeOperand (ts : List Token) : Prop := ∃ x o, Spells ts (.operand x o)

/-- The tokens write some operators and operands behind a first operand. -/
def SomeLinks (ts : List Token) : Prop := ∃ ls, Spells ts (.links ls)

/-- The tokens write some arguments and the parenthesis behind them. -/
def SomeArgs (ts : List Token) : Prop := ∃ xs, SpellsArgs ts xs

/-- The tokens write at least one argument and the parenthesis behind it. -/
def SomeMoreArgs (ts : List Token) : Prop :=
  ∃ us r xs, ts = us ++ [r] ∧ r.is .delimiter ")" ∧ Spells us (.args xs)

/-- The tokens write some parameters and the parenthesis behind them. -/
def SomeParams (ts : List Token) : Prop := ∃ ps, SpellsParams ts ps

/-- The tokens write at least one parameter and the parenthesis behind it. -/
def SomeMoreParams (ts : List Token) : Prop := ∃ ps, SpellsMoreParams ts ps

/-- A token that completes a phrase, wherever it would stand. -/
def piece (kind : TokenKind) (text : String) : Token := ⟨kind, text, 0⟩

theorem piece_is (kind : TokenKind) (text : String) : (piece kind text).is kind text := by
  simp [piece, Token.is]

section Phrases

variable {t l r i e : Token} {ts us vs rest : List Token} {x : Expr} {o : Bool} {err : ParseError}

/-- An operand is an expression. -/
theorem SomeOperand.someExpr (h : SomeOperand ts) : SomeExpr ts := by
  obtain ⟨x, o, h⟩ := h
  exact ⟨x, h.expr_of_operand⟩

theorem someOperand_name : SomeOperand [piece .identifier "x"] := ⟨_, _, .var rfl⟩

theorem someExpr_name : SomeExpr [piece .identifier "x"] := someOperand_name.someExpr

theorem completes_operand_nil : Completes SomeOperand [] := ⟨_, someOperand_name⟩

theorem SomeMoreArgs.someArgs (h : SomeMoreArgs ts) : SomeArgs ts := by
  obtain ⟨us, r, xs, rfl, hr, hus⟩ := h
  exact ⟨xs, us, r, rfl, hr, .inr hus⟩

/-- A closing parenthesis makes an expression the last argument. -/
theorem SomeExpr.completes_moreArgs (h : SomeExpr ts) : Completes SomeMoreArgs ts := by
  obtain ⟨x, h⟩ := h
  exact ⟨_, ts, _, [x], rfl, piece_is _ _, .lastArg h⟩

/-- One more argument in front of a comma. -/
theorem SomeMoreArgs.cons (hx : SomeExpr ts) (ht : t.is .delimiter ",") (h : SomeMoreArgs us) :
    SomeMoreArgs (ts ++ t :: us) := by
  obtain ⟨x, hx⟩ := hx
  obtain ⟨vs, r, xs, rfl, hr, hvs⟩ := h
  exact ⟨ts ++ t :: vs, r, x :: xs, by simp, hr, .moreArgs hx ht hvs⟩

theorem SomeOperand.unary {op : UnaryOp} (ht : t.prefixOp? = some op) (h : SomeOperand ts) :
    SomeOperand (t :: ts) := by
  obtain ⟨x, o, h⟩ := h
  exact ⟨_, o, .unary ht h⟩

/-- A name, an opening parenthesis and arguments are a call. -/
theorem SomeArgs.call (ht : t.kind = .identifier) (hl : l.is .delimiter "(") (h : SomeArgs ts) :
    SomeOperand (t :: l :: ts) := by
  obtain ⟨xs, h⟩ := h
  exact ⟨_, _, .call_of_args ht hl h⟩

theorem SomeExpr.arrow (ht : t.kind = .identifier) (hl : l.is .operator "=>") (h : SomeExpr ts) :
    SomeOperand (t :: l :: ts) := by
  obtain ⟨x, h⟩ := h
  exact ⟨_, _, .arrow ht hl h⟩

/-- An expression behind an opening parenthesis can be closed to a group. -/
theorem SomeExpr.completes_group (hl : l.is .delimiter "(") (h : SomeExpr ts) :
    Completes SomeOperand (l :: ts) := by
  obtain ⟨x, h⟩ := h
  exact ⟨_, _, _, .group hl h (piece_is _ _)⟩

/-- Parameters, an arrow and a body are a function. -/
theorem SomeParams.lambda (hl : l.is .delimiter "(") (hps : SomeParams ts)
    (ht : t.is .operator "=>") (hx : SomeExpr us) : SomeOperand (l :: (ts ++ t :: us)) := by
  obtain ⟨ps, hps⟩ := hps
  obtain ⟨x, hx⟩ := hx
  exact ⟨_, _, .lambda hl hps ht hx⟩

/-- Parameters in parentheses are the start of a function: any body completes it. -/
theorem SomeParams.completes_lambda (hl : l.is .delimiter "(") (hps : SomeParams ts) :
    Completes SomeOperand (l :: ts) :=
  ⟨_, hps.lambda hl (piece_is _ _) someExpr_name⟩

theorem SomeExpr.conditional (hi : i.is .keyword "if") (hx : SomeExpr ts)
    (ht : t.is .keyword "then") (hy : SomeExpr us) (he : e.is .keyword "else")
    (hz : SomeExpr vs) : SomeOperand (i :: (ts ++ t :: (us ++ e :: vs))) := by
  obtain ⟨x, hx⟩ := hx
  obtain ⟨y, hy⟩ := hy
  obtain ⟨z, hz⟩ := hz
  exact ⟨_, _, .conditional hi hx ht hy he hz⟩

/-- With a condition and a first branch read, the other branch is all that is missing. -/
theorem SomeExpr.completes_then (hi : i.is .keyword "if") (hx : SomeExpr ts)
    (ht : t.is .keyword "then") (hy : SomeExpr us) :
    Completes SomeOperand (i :: (ts ++ t :: us)) := by
  refine ⟨piece .keyword "else" :: [piece .identifier "x"], ?_⟩
  have h := hx.conditional hi ht hy (piece_is .keyword "else") someExpr_name
  simpa using h

/-- With a condition read, the two branches are all that is missing. -/
theorem SomeExpr.completes_if (hi : i.is .keyword "if") (hx : SomeExpr ts) :
    Completes SomeOperand (i :: ts) :=
  (hx.completes_then hi (piece_is .keyword "then") someExpr_name).of_append (i :: ts)

end Phrases

/-! ## Parameters -/

section Failures

variable {t : Token} {ts us rest : List Token} {err : ParseError}

/-- A token that is expected and not found is named, at the place where it should stand. -/
theorem expect_error {kind : TokenKind} {text : String} (h : expect kind text ts = .error err) :
    err = unexpected (.text text) ts := by
  cases ts with
  | nil => cases h; rfl
  | cons t us =>
    rw [expect] at h
    split at h
    · cases h
    · cases h; rfl

theorem completes_moreParams_nil : Completes SomeMoreParams [] :=
  ⟨_, _, .last (t := piece .identifier "x") rfl (piece_is _ _)⟩

theorem completes_moreParams_name (ht : t.kind = .identifier) : Completes SomeMoreParams [t] :=
  ⟨_, _, .last ht (piece_is _ _)⟩

/-- Where the reading of more parameters fails, those in front of the place could have been
completed. -/
theorem moreParams_fails {ts : List Token} (h : moreParams ts = .error err) :
    FailsAt SomeMoreParams ts err := by
  match ts with
  | [] => cases h; exact failsAt_first _ completes_moreParams_nil []
  | [t] =>
    rw [moreParams] at h
    split at h
    · rename_i ht
      cases h
      exact failsAt_behind _ (completes_moreParams_name ht) []
    · cases h; exact failsAt_first _ completes_moreParams_nil [t]
  | t :: u :: us =>
    rw [moreParams] at h
    split at h
    · rename_i ht
      split at h
      · rename_i hu
        split at h
        · rename_i he
          cases h
          refine (moreParams_fails he).inside [t, u] ?_
          rintro vs ⟨ps, hps⟩
          exact .of ⟨_, .more ht hu hps⟩
        · cases h
      · split at h
        · cases h
        · cases h
          exact failsAt_behind _ (completes_moreParams_name ht) (u :: us)
    · cases h; exact failsAt_first _ completes_moreParams_nil (t :: u :: us)

/-- Where the reading of parameters fails, what stands in front of the place could have been
completed. -/
theorem params_fails (h : params ts = .error err) : FailsAt SomeParams ts err := by
  have hmore {us : List Token} (h : moreParams us = .error err) : FailsAt SomeParams us err :=
    (moreParams_fails h).imp fun vs ⟨ps, hps⟩ => .of ⟨ps, .some hps⟩
  cases ts with
  | nil => exact hmore h
  | cons t us =>
    rw [params] at h
    split at h
    · cases h
    · exact hmore h

/-! ## Expressions -/

/-- How reading an operand that starts with `t` and has no operator in front fails: at a place of
its own, or inside an expression or arguments, in front of which it can be completed. -/
inductive PrimaryFails (t : Token) : List Token → ParseError → Prop
  | here {us : List Token} {err : ParseError} (h : FailsAt SomeOperand (t :: us) err) :
      PrimaryFails t us err
  | expr (front : List Token) {rest : List Token} {err : ParseError} (he : expr rest = .error err)
      (h : ∀ vs, SomeExpr vs → Completes SomeOperand (t :: (front ++ vs))) :
      PrimaryFails t (front ++ rest) err
  | args (front : List Token) {rest : List Token} {err : ParseError} (he : args rest = .error err)
      (h : ∀ vs, SomeArgs vs → Completes SomeOperand (t :: (front ++ vs))) :
      PrimaryFails t (front ++ rest) err

/-- How the rest of such a reading fails, when it has taken `done` behind `t` and is left with
`rest`. -/
def FailsBehind {α : Type} (t : Token) (done rest : List Token) (r : Except ParseError α) : Prop :=
  ∀ err, r = .error err → PrimaryFails t (done ++ rest) err

/-! The rules of `FailsBehind` follow the chain of readings that `outcome_primary` gives: one of the
readings fails, or else what it has taken goes to `done` and the rest of the chain fails. -/

namespace FailsBehind

variable {α β : Type} {done : List Token}

theorem ok (a : α) : FailsBehind t done rest (.ok a) := nofun

/-- Two readings in a row fail behind what was read if each of them does. -/
theorem bind {r : Except ParseError β} {f : β → Except ParseError α}
    (hr : FailsBehind t done rest r)
    (hf : ∀ b, r = .ok b → FailsBehind t done rest (f b)) :
    FailsBehind t done rest (r >>= f) := by
  intro err h
  cases r with
  | error e => cases h; exact hr _ rfl
  | ok b => exact hf b rfl err h

/-- Reading an expression fails inside the operand, and if it does not, the operand goes on behind
it. -/
theorem expr {f : Expr × List Token → Except ParseError α}
    (hc : ∀ vs, SomeExpr vs → Completes SomeOperand (t :: (done ++ vs)))
    (hf : ∀ vs x left, SomeExpr vs → FailsBehind t (done ++ vs) left (f (x, left))) :
    FailsBehind t done rest (outcome (Parser.expr rest) >>= f) := by
  refine bind (fun err h => .expr done (outcome_error_iff.mp h) hc) fun ⟨x, left⟩ h err he => ?_
  obtain ⟨vs, rfl, hx, -⟩ := expr_sound (outcome_ok_iff.mp h)
  have hfails := hf vs x left ⟨x, hx⟩ err he
  rwa [List.append_assoc] at hfails

/-- Nothing fails behind the arguments of a call. -/
theorem args {f : List Expr × List Token → Except ParseError α}
    (hc : ∀ vs, SomeArgs vs → Completes SomeOperand (t :: (done ++ vs)))
    (hf : ∀ p, ∃ a, f p = .ok a) :
    FailsBehind t done rest (outcome (Parser.args rest) >>= f) := by
  refine bind (fun err h => .args done (outcome_error_iff.mp h) hc) fun p _ => ?_
  obtain ⟨a, ha⟩ := hf p
  rw [ha]
  exact ok a

/-- Reading parameters fails inside the operand, and if it does not, the operand goes on behind
them. -/
theorem params {f : List String × List Token → Except ParseError α}
    (hc : ∀ vs, SomeParams vs → Completes SomeOperand (t :: (done ++ vs)))
    (hf : ∀ vs ps left, SomeParams vs → FailsBehind t (done ++ vs) left (f (ps, left))) :
    FailsBehind t done rest (outcome (Parser.params rest) >>= f) := by
  refine bind (fun err h => ?_) fun ⟨ps, left⟩ h err he => ?_
  · exact .here ((params_fails (outcome_error_iff.mp h)).inside (t :: done) hc)
  · obtain ⟨vs, rfl, hps⟩ := params_sound (outcome_ok_iff.mp h)
    have hfails := hf vs ps left ⟨ps, hps⟩ err he
    rwa [List.append_assoc] at hfails

/-- A missing token is missed where the operand could have been completed. -/
theorem expect {kind : TokenKind} {text : String} {f : Token × List Token → Except ParseError α}
    (hc : Completes SomeOperand (t :: done))
    (hf : ∀ u left, u.is kind text → FailsBehind t (done ++ [u]) left (f (u, left))) :
    FailsBehind t done rest (outcome (Parser.expect kind text rest) >>= f) := by
  refine bind (fun err h => ?_) fun ⟨u, left⟩ h err he => ?_
  · rw [expect_error (outcome_error_iff.mp h)]
    exact .here (failsAt_behind _ hc rest)
  · obtain ⟨rfl, hu⟩ := expect_ok (outcome_ok_iff.mp h)
    have hfails := hf u left hu err he
    rwa [List.append_assoc] at hfails

end FailsBehind

theorem primaryFails_of_error (hn : t.kind = .number → (Number.read? t.text).isSome)
    (h : primary (t :: us) = .error err) : PrimaryFails t us err := by
  suffices hfails : FailsBehind t [] us (outcome (primary (t :: us))) from
    hfails err (outcome_error_iff.mpr h)
  -- One case for each way in which an operand starts. In each, `hc` says how what has been read so
  -- far could be completed, and every later reading is behind that.
  rw [outcome_primary]
  split
  · rename_i ht
    obtain ⟨x, hx⟩ := Option.isSome_iff_exists.mp (hn ht)
    rw [hx]
    exact .ok _
  split
  · rename_i hif
    refine .expr (fun vs hvs => hvs.completes_if hif) fun vs _ _ hcondition => ?_
    refine .expect (hcondition.completes_if hif) fun th _ hthen => ?_
    refine .expr ?_ fun ws _ _ hbranch => ?_
    · intro ws hws
      simpa using hcondition.completes_then hif hthen hws
    refine .expect ?_ fun el _ helse => ?_
    · simpa using hcondition.completes_then hif hthen hbranch
    refine .expr ?_ fun _ _ _ _ => .ok _
    intro ws hws
    refine .of ?_
    simpa using hcondition.conditional hif hthen hbranch helse hws
  split
  · rename_i ht
    cases us with
    | nil => exact .ok _
    | cons u vs =>
      simp only
      split
      · rename_i hu
        -- With the arrow read, a body is all that is missing.
        change FailsBehind t [u] vs _
        exact .expr (fun ws hws => .of (hws.arrow ht hu)) fun _ _ _ _ => .ok _
      split
      · rename_i hu
        change FailsBehind t [u] vs _
        exact .args (fun ws hws => .of (hws.call ht hu)) fun _ => ⟨_, rfl⟩
      · exact .ok _
  split
  · rename_i hl
    split
    · -- Whether parentheses hold parameters is known before any of them is read.
      refine .params (fun vs hvs => hvs.completes_lambda hl) fun ps _ _ hparams => ?_
      refine .expect (hparams.completes_lambda hl) fun ar _ harrow => ?_
      refine .expr ?_ fun _ _ _ _ => .ok _
      intro vs hvs
      refine .of ?_
      simpa using hparams.lambda hl harrow hvs
    · refine .expr (fun vs hvs => hvs.completes_group hl) fun vs _ _ hgroup => ?_
      exact .expect (hgroup.completes_group hl) fun _ _ _ => .ok _
  · intro err h
    cases h
    exact .here (failsAt_first _ completes_operand_nil _)

/-- Operators and operands fail only where an operator comes next. -/
theorem not_noLink_of_links (h : links ts = .error err) : ¬ NoLink ts := by
  intro hnone
  rw [links_nil hnone] at h
  cases h

/-- An operand behind which the links fail is not open. -/
theorem isOpen_of_links_error {o : Bool} (h : links rest = .error err)
    (ho : o = true → NoLink rest) : o = false :=
  Bool.eq_false_iff.mpr fun hopen => not_noLink_of_links h (ho hopen)

mutual

/-- Reading an expression fails at a place in front of which an expression could have been
completed. -/
theorem expr_fails {ts : List Token} (hn : Numerals ts) (h : expr ts = .error err) :
    FailsAt SomeExpr ts err := by
  rw [expr] at h
  split at h
  · rename_i he
    cases h
    exact (operand_fails hn he).imp fun us hus => .of hus.someExpr
  · rename_i hx
    obtain ⟨us, o, rfl, hx, ho⟩ := operand_sound ⟨_, hx⟩
    split at h
    · rename_i he
      cases h
      -- Links fail only in front of an operator, so the operand before them is closed.
      obtain rfl := isOpen_of_links_error he ho
      exact (links_fails hn.behind he).inside us fun vs ⟨ls, hls⟩ =>
        .of ⟨_, .expr hx hls fun h => by cases h⟩
    · cases h
termination_by 5 * ts.length + 2

/-- Reading operators and operands fails at a place in front of which they could have been
completed. -/
theorem links_fails {ts : List Token} (hn : Numerals ts) (h : links ts = .error err) :
    FailsAt SomeLinks ts err := by
  match ts, hn, h with
  | [], hn, h => rw [links] at h; cases h
  | t :: us, hn, h =>
    rw [links] at h
    split at h
    · cases h
    · rename_i ht
      split at h
      · rename_i he
        cases h
        refine (operand_fails hn.tail he).cons fun vs ⟨x, o, hx⟩ => .of ?_
        have hlinks := Spells.cons ht hx .nil fun _ => rfl
        rw [List.append_nil] at hlinks
        exact ⟨_, hlinks⟩
      · rename_i hx
        obtain ⟨vs, o, rfl, hx, ho⟩ := operand_sound ⟨_, hx⟩
        split at h
        · rename_i he
          cases h
          obtain rfl := isOpen_of_links_error he ho
          exact (links_fails hn.tail.behind he).inside (t :: vs) fun ws ⟨ls, hls⟩ =>
            .of ⟨_, .cons ht hx hls fun h => by cases h⟩
        · cases h
termination_by 5 * ts.length

/-- Reading an operand fails at a place in front of which an operand could have been completed. -/
theorem operand_fails {ts : List Token} (hn : Numerals ts) (h : operand ts = .error err) :
    FailsAt SomeOperand ts err := by
  match ts, hn, h with
  | [], hn, h =>
    rw [operand] at h
    cases h
    exact failsAt_first _ completes_operand_nil _
  | t :: us, hn, h =>
    rw [operand] at h
    split at h
    · rename_i ht
      split at h
      · rename_i he
        cases h
        exact (operand_fails hn.tail he).cons fun vs hvs => .of (hvs.unary ht)
      · cases h
    · exact primary_fails hn h
termination_by 5 * ts.length + 1

theorem primary_fails {ts : List Token} (hn : Numerals ts) (h : primary ts = .error err) :
    FailsAt SomeOperand ts err := by
  match ts, hn, h with
  | [], hn, h =>
    rw [primary.eq_def] at h
    cases h
    exact failsAt_first _ completes_operand_nil _
  | t :: us, hn, h =>
    cases primaryFails_of_error (hn t List.mem_cons_self) h with
    | here h => exact h
    | @expr front rest _ he hfront =>
      exact (expr_fails hn.tail.behind he).inside (t :: front) hfront
    | @args front rest _ he hfront =>
      exact (args_fails hn.tail.behind he).inside (t :: front) hfront
termination_by 5 * ts.length

/-- Reading arguments fails at a place in front of which they could have been completed. -/
theorem args_fails {ts : List Token} (hn : Numerals ts) (h : args ts = .error err) :
    FailsAt SomeArgs ts err := by
  match ts, hn, h with
  | [], hn, h =>
    rw [args] at h
    exact (moreArgs_fails hn h).imp fun us hus => .of hus.someArgs
  | t :: us, hn, h =>
    rw [args] at h
    split at h
    · cases h
    · exact (moreArgs_fails hn h).imp fun us hus => .of hus.someArgs
termination_by 5 * ts.length + 4

theorem moreArgs_fails {ts : List Token} (hn : Numerals ts) (h : moreArgs ts = .error err) :
    FailsAt SomeMoreArgs ts err := by
  rw [moreArgs] at h
  split at h
  · rename_i he
    cases h
    exact (expr_fails hn he).imp fun us hus => hus.completes_moreArgs
  · rename_i hx
    obtain ⟨us, rfl, hx, -⟩ := expr_sound ⟨_, hx⟩
    cases h
    exact failsAt_behind _ (SomeExpr.completes_moreArgs ⟨_, hx⟩) []
  · rename_i x u us hlen hx
    have hlt : us.length < ts.length := Nat.lt_of_succ_lt hlen
    obtain ⟨vs, rfl, hx, -⟩ := expr_sound ⟨_, hx⟩
    have hx : SomeExpr vs := ⟨_, hx⟩
    split at h
    · rename_i hu
      split at h
      · rename_i he
        cases h
        rw [List.append_cons]
        refine (moreArgs_fails hn.behind.tail he).inside _ fun ws hws => .of ?_
        rw [← List.append_cons]
        -- Behind the comma another argument follows, and it is the later one that could be
        -- completed.
        exact hws.cons hx hu
      · cases h
    · split at h
      · cases h
      · cases h
        exact failsAt_behind _ hx.completes_moreArgs (u :: us)
termination_by 5 * ts.length + 3

end

end Failures

/-! ## Places of errors -/

/-- Reading `ts` comes to `rest`, over tokens none of which is the end of the text. -/
def Reaches (ts rest : List Token) : Prop := ∃ before, ts = before ++ rest ∧ NoEnd before

/-- What reading leaves stands at the end of the list. -/
theorem Reaches.suffix {ts rest : List Token} (h : Reaches ts rest) : rest <:+ ts := by
  obtain ⟨before, rfl, -⟩ := h
  exact List.suffix_append before rest

theorem expr_reaches {ts rest : List Token} {x : Expr} (h : Gives (expr ts) x rest) :
    Reaches ts rest := by
  obtain ⟨us, hts, hx, -⟩ := expr_sound h
  exact ⟨us, hts, hx.noEnd⟩

/-- The error says what was expected at some place that reading `ts` comes to. -/
def ErrorAt (ts : List Token) (e : ParseError) : Prop :=
  ∃ expected rest, Reaches ts rest ∧ e = unexpected expected rest

/-- A phrase without the end of the text fails at a place that reading comes to. -/
theorem FailsAt.errorAt {P : List Token → Prop} {ts : List Token} {err : ParseError}
    (h : FailsAt P ts err) (hP : ∀ us, P us → NoEnd us) : ErrorAt ts err := by
  obtain ⟨expected, before, rest, rfl, rfl, more, hbefore⟩ := h
  exact ⟨expected, rest, ⟨before, rfl, (noEnd_append.mp (hP _ hbefore)).1⟩, rfl⟩

/-- The error of an expression names a token of the list, or its end. -/
theorem expr_error {ts : List Token} {e : ParseError} (hn : Numerals ts)
    (h : expr ts = .error e) : ErrorAt ts e :=
  (expr_fails hn h).errorAt fun _ ⟨_, hx⟩ => hx.noEnd

end Parser

end Abacus
