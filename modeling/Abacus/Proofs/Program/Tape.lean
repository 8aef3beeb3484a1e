import Abacus.Proofs.Program.Levels

/-!
# Tokens under a cursor

`Parser` takes tokens off the front of a list. A parser can also keep the list and move a cursor
over it (`Tape`). The last token is the end of the text; the cursor stays there when it is moved on,
and whoever looks further ahead sees that token again. `Reading` is what such a parser does: it
looks at tokens, moves the cursor, and fails with an error, or it comes to no end at all.

`Reading.ComesTo m p o`: from the place `p` on, the reading ends as the outcome `o` says of the
tokens from there on, and what `o` leaves over is what the cursor is then in front of. On its way
the cursor moves forward only, and over no end of the text (`Tape.Passes`). One rule for each step
of a reading follows it along the list.
-/

namespace Abacus

/-- The tokens that a parser holds. -/
structure Tape where
  tokens : List Token
  ends : ∃ body e, tokens = body ++ [e] ∧ e.isEnd

namespace Tape

/-- A closed list ends with the end of its tokens. -/
theorem exists_end_of_closed (ts : List Token) :
    ∃ body e, Parser.closed ts = body ++ [e] ∧ e.isEnd := by
  rw [Parser.closed]
  split
  · exact ⟨[], _, rfl, rfl⟩
  · rename_i t ht
    split
    · rename_i hend
      obtain ⟨body, rfl⟩ := List.getLast?_eq_some_iff.mp ht
      exact ⟨body, t, rfl, hend⟩
    · exact ⟨ts, _, rfl, rfl⟩

/-- The tape of a token list: the end of the text is put behind it if it is missing. -/
def ofTokens (ts : List Token) : Tape := ⟨Parser.closed ts, exists_end_of_closed ts⟩

variable (tape : Tape)

theorem tokens_ne_nil : tape.tokens ≠ [] := by
  obtain ⟨body, e, htokens, -⟩ := tape.ends
  simp [htokens]

/-- The end of the text. -/
def last : Token := tape.tokens.getLast tape.tokens_ne_nil

/-- The places where the cursor can be. -/
abbrev Place : Type := Fin tape.tokens.length

/-- The place of the first token. -/
def start : tape.Place := ⟨0, List.length_pos_iff.mpr tape.tokens_ne_nil⟩

variable {tape}

/-- The token at a place. -/
def current (p : tape.Place) : Token := tape.tokens[p.val]

/-- The token `k` places further on. Behind the last token it is that token again. -/
def peek (p : tape.Place) (k : Nat) : Token := tape.tokens[p.val + k]?.getD tape.last

/-- The next place. The last one is its own next place. -/
def next (p : tape.Place) : tape.Place :=
  if h : p.val + 1 < tape.tokens.length then ⟨p.val + 1, h⟩ else p

/-- The tokens from a place on. -/
def ahead (p : tape.Place) : List Token := tape.tokens.drop p.val

/-- The tokens behind the one at a place. -/
def behind (p : tape.Place) : List Token := tape.tokens.drop (p.val + 1)

/-- The second place is not in front of the first one, and no end of the text lies between. -/
def Passes (p q : tape.Place) : Prop :=
  p ≤ q ∧ ∀ k : tape.Place, p ≤ k → k < q → (current k).isEnd = false

section Places

variable {p q r : tape.Place} {t u : Token} {us : List Token}

theorem isEnd_last : tape.last.isEnd := by
  obtain ⟨body, e, htokens, he⟩ := tape.ends
  simp [last, htokens, he]

theorem kind_last : tape.last.kind = .endOfText := of_decide_eq_true isEnd_last

/-- The last token is taken for no token that is asked for. -/
theorem is_last {kind : TokenKind} {text : String} (h : kind ≠ .endOfText) :
    tape.last.is kind text = false :=
  Token.is_of_kind_ne (kind_last ▸ h.symm)

/-- What is ahead is the current token and what is behind it. -/
theorem ahead_eq (p : tape.Place) : ahead p = current p :: behind p :=
  List.drop_eq_getElem_cons p.isLt

theorem length_ahead (p : tape.Place) : (ahead p).length = tape.tokens.length - p :=
  List.length_drop

theorem length_ahead_pos (p : tape.Place) : 0 < (ahead p).length := by
  rw [ahead_eq, List.length_cons]
  exact Nat.succ_pos _

theorem length_behind (p : tape.Place) : (ahead p).length = (behind p).length + 1 := by
  rw [ahead_eq, List.length_cons]

/-- At the start all tokens are ahead. -/
theorem ahead_start : ahead tape.start = tape.tokens := rfl

/-- A place is known from the tokens that are left. -/
theorem eq_of_ahead (h : ahead p = ahead q) : p = q := by
  have hlen := congrArg List.length h
  rw [length_ahead, length_ahead] at hlen
  exact Fin.ext (by omega)

/-- Only the end of the text is the last token. -/
theorem lt_of_not_end (h : (current p).isEnd = false) : p.val + 1 < tape.tokens.length := by
  rcases Nat.lt_or_ge (p.val + 1) tape.tokens.length with hlt | hge
  · exact hlt
  · have hcurrent : current p = tape.last := by
      rw [current, last, List.getLast_eq_getElem]
      congr 1
      omega
    rw [hcurrent, isEnd_last] at h
    cases h

/-- The next place is one further, unless the end of the tokens is reached. -/
theorem val_next (h : (current p).isEnd = false) : (next p).val = p.val + 1 := by
  rw [next, dif_pos (lt_of_not_end h)]

/-- The cursor is never moved back. -/
theorem le_next (p : tape.Place) : p ≤ next p := by
  rw [next]
  split
  · exact Fin.le_def.mpr (Nat.le_succ _)
  · exact Fin.le_refl p

/-- Behind a token that is not the end stands what is ahead of the next place. -/
theorem ahead_next (h : (current p).isEnd = false) : ahead (next p) = behind p := by
  rw [ahead, behind, val_next h]

theorem behind_eq (h : (current p).isEnd = false) :
    behind p = current (next p) :: behind (next p) := by
  rw [← ahead_next h, ahead_eq]

/-- Looking ahead is looking into the tokens that are left: a test that the end of the text does not
meet tells no difference. -/
theorem test_peek (test : Token → Bool) (htest : test tape.last = false) {i : Nat}
    (h : (ahead p).drop i = us) (k : Nat) : test (peek p (i + k)) = (us.drop k).head?.any test := by
  rw [← h, peek, ahead, List.drop_drop, List.drop_drop, List.head?_drop]
  cases tape.tokens[p.val + (i + k)]? with
  | none => exact htest
  | some t => rfl

/-- A token is looked for ahead of the place as in what is ahead, and past the end there is none. -/
theorem is_peek (kind : TokenKind) (text : String) (hkind : kind ≠ .endOfText) {i : Nat}
    (h : (ahead p).drop i = us) (k : Nat) :
    (peek p (i + k)).is kind text = (us.drop k).head?.any (·.is kind text) :=
  test_peek (·.is kind text) (is_last hkind) h k

/-- An identifier is looked for in the same way. -/
theorem identifier_peek {i : Nat} (h : (ahead p).drop i = us) :
    (peek p i).kind = .identifier ↔ us.head?.any (·.kind = .identifier) := by
  have htest : decide (tape.last.kind = .identifier) = false :=
    decide_eq_false (kind_last ▸ by decide)
  have hpeek : decide ((peek p i).kind = .identifier) = us.head?.any (·.kind = .identifier) :=
    test_peek (fun t => decide (t.kind = .identifier)) htest h 0
  rw [← hpeek, decide_eq_true_iff]

theorem peek_one (h : (current p).isEnd = false) : peek p 1 = current (next p) := by
  have hlt := lt_of_not_end h
  rw [peek, List.getElem?_eq_getElem hlt, Option.getD_some, current]
  congr 1
  exact (val_next h).symm

namespace Passes

theorem refl (p : tape.Place) : Passes p p :=
  ⟨Fin.le_refl p, fun _ hpk hkp => absurd (Fin.lt_of_lt_of_le hkp hpk) (Fin.lt_irrefl _)⟩

theorem trans (hpq : Passes p q) (hqr : Passes q r) : Passes p r := by
  refine ⟨Fin.le_trans hpq.1 hqr.1, fun k hpk hkr => ?_⟩
  by_cases hkq : k < q
  · exact hpq.2 k hpk hkq
  · exact hqr.2 k (Fin.not_lt.mp hkq) hkr

/-- A step does not pass the end of the tokens. -/
theorem next (h : (current p).isEnd = false) : Passes p (next p) := by
  refine ⟨?_, fun k hpk hk => ?_⟩
  · rw [Fin.le_def, val_next h]
    omega
  · have hkp : k = p := by
      rw [Fin.le_def] at hpk
      rw [Fin.lt_def, val_next h] at hk
      exact Fin.ext (by omega)
    rw [hkp, h]

end Passes

end Places

end Tape

/-! ## Readings -/

open Tape

/-- What a parser does on a tape. It ends with a value or an error, at the place where the cursor
then is, or does not end. -/
abbrev Reading (tape : Tape) := ExceptT ParseError (StateT tape.Place Option)

namespace Reading

variable {tape : Tape} {α β : Type}

/-- What a reading does from a place on. -/
def startAt (m : Reading tape α) (p : tape.Place) : Option (Except ParseError α × tape.Place) :=
  (ExceptT.run m).run p

/-- A reading that does not end. -/
def endless : Reading tape α := ExceptT.mk fun _ => none

/-- The token at the cursor. -/
def current : Reading tape Token := return tape.current (← get)

/-- The token `k` places behind the cursor. -/
def peek (k : Nat) : Reading tape Token := return tape.peek (← get) k

/-- Moves the cursor to the next place. -/
def advance : Reading tape Unit := modify tape.next

/-- Fails at the token at the cursor. -/
def fail (expected : Expectation) : Reading tape α := do
  throw (Parser.unexpected expected [← current])

/-- Reads a token that meets a test. -/
def take (test : Token → Bool) (expected : Expectation) : Reading tape Token := do
  let t ← current
  if test t then
    advance
    return t
  else fail expected

/-- Reads a token of a given kind and text. -/
def expect (kind : TokenKind) (text : String) : Reading tape Token :=
  take (·.is kind text) (.text text)

/-- Reads an identifier. -/
def identifier (expected : Expectation) : Reading tape Token :=
  take (·.kind = .identifier) expected

/-- Reads an operator of the level, if one is at the cursor. -/
def link (l : Level) : Reading tape (Option BinaryOp) := do
  match (← current).linkOf? l with
  | none => return none
  | some op =>
    advance
    return some op

/-! ## What readings come to -/

/-- From `p` on the reading ends with the outcome: with the same value and the cursor in front of
the tokens that are left over, or with the same error. The cursor passes no end of the text. -/
inductive ComesTo (m : Reading tape α) (p : tape.Place) :
    Except ParseError (α × List Token) → Prop
  | ok {a : α} {q : tape.Place} (h : m.startAt p = some (.ok a, q)) (hq : Passes p q) :
      ComesTo m p (.ok (a, ahead q))
  | error {e : ParseError} {q : tape.Place} (h : m.startAt p = some (.error e, q))
      (hq : Passes p q) : ComesTo m p (.error e)

/-- Behind a result the next reading starts where the first one stopped. -/
theorem startAt_bind_ok {m : Reading tape α} {k : α → Reading tape β} {p q : tape.Place} {a : α}
    (h : m.startAt p = some (.ok a, q)) : (m >>= k).startAt p = (k a).startAt q := by
  simp only [startAt, ExceptT.run_bind, StateT.run_bind] at h ⊢
  rw [h]
  rfl

/-- An error stops what would come behind it, at the place where it came up. -/
theorem startAt_bind_error {m : Reading tape α} {k : α → Reading tape β} {p q : tape.Place}
    {e : ParseError} (h : m.startAt p = some (.error e, q)) :
    (m >>= k).startAt p = some (.error e, q) := by
  simp only [startAt, ExceptT.run_bind, StateT.run_bind] at h ⊢
  rw [h]
  rfl

namespace ComesTo

variable {m : Reading tape α} {k : α → Reading tape β} {p q : tape.Place}
  {o : Except ParseError (α × List Token)} {o' : Except ParseError (β × List Token)}

/-- The end of the reading. -/
theorem ends (h : m.ComesTo p o) :
    ∃ r q, m.startAt p = some (r, q) ∧ Passes p q ∧ o = r.map fun a => (a, ahead q) := by
  cases h with
  | ok h hq => exact ⟨_, _, h, hq, rfl⟩
  | error h hq => exact ⟨_, _, h, hq, rfl⟩

/-- What a reading comes to behind a first step. -/
theorem after {a : α} (hm : m.startAt p = some (.ok a, q)) (hq : Passes p q)
    (hk : (k a).ComesTo q o') : (m >>= k).ComesTo p o' := by
  cases hk with
  | ok h hr => exact .ok ((startAt_bind_ok hm).trans h) (hq.trans hr)
  | error h hr => exact .error ((startAt_bind_ok hm).trans h) (hq.trans hr)

/-- Readings one behind the other come to their outcomes one behind the other. -/
theorem bind {f : α × List Token → Except ParseError (β × List Token)} (hm : m.ComesTo p o)
    (hk : ∀ a q, o = .ok (a, ahead q) → (k a).ComesTo q (f (a, ahead q))) :
    (m >>= k).ComesTo p (o >>= f) := by
  cases hm with
  | @ok a q h hq => exact after h hq (hk a q rfl)
  | error h hq => exact .error (startAt_bind_error h) hq

/-- A reading that leaves the tokens as they are leaves the cursor where it is. -/
theorem startAt_stay {a : α} (h : m.ComesTo p (.ok (a, ahead p))) :
    m.startAt p = some (.ok a, p) := by
  obtain ⟨r, q, hrun, -, ho⟩ := h.ends
  cases r with
  | error e => cases ho
  | ok b =>
    obtain ⟨rfl, hq⟩ := Prod.mk.inj (Except.ok.inj ho)
    rw [hrun, eq_of_ahead hq]

/-- Behind a reading that leaves the cursor where it is. -/
theorem bind_stay {a : α} (hm : m.ComesTo p (.ok (a, ahead p))) (hk : (k a).ComesTo p o') :
    (m >>= k).ComesTo p o' :=
  after hm.startAt_stay (.refl p) hk

/-- A result leaves all that is ahead. -/
theorem pure (a : α) (p : tape.Place) :
    (Pure.pure a : Reading tape α).ComesTo p (.ok (a, ahead p)) :=
  .ok rfl (.refl p)

theorem throw (e : ParseError) (p : tape.Place) :
    (MonadExcept.throw e : Reading tape α).ComesTo p (.error e) :=
  .error rfl (.refl p)

/-- A failure shows what is ahead of the place. -/
theorem fail (expected : Expectation) (p : tape.Place) :
    (Reading.fail expected : Reading tape α).ComesTo p
      (.error (Parser.unexpected expected (ahead p))) := by
  rw [ahead_eq]
  exact .error rfl (.refl p)

/-! ### Steps in front of a reading -/

variable {c : Token → Reading tape β}

theorem current (h : (c (tape.current p)).ComesTo p o') : (Reading.current >>= c).ComesTo p o' :=
  after rfl (.refl p) h

theorem peek {i : Nat} (h : (c (tape.peek p i)).ComesTo p o') :
    (Reading.peek i >>= c).ComesTo p o' :=
  after rfl (.refl p) h

/-- Going on by one token comes to what the rest comes to at the next place. -/
theorem advance {c : Unit → Reading tape β} (ht : (tape.current p).isEnd = false)
    (h : (c ()).ComesTo (tape.next p) o') : (Reading.advance >>= c).ComesTo p o' :=
  after rfl (.next ht) h

/-- Behind a token that meets the test. -/
theorem take_of {test : Token → Bool} {expected : Expectation} (h : test (tape.current p) = true)
    (ht : (tape.current p).isEnd = false) (hc : (c (tape.current p)).ComesTo (tape.next p) o') :
    (Reading.take test expected >>= c).ComesTo p o' := by
  rw [Reading.take, bind_assoc]
  refine current ?_
  rw [if_pos h, bind_assoc]
  refine advance ht ?_
  rw [pure_bind]
  exact hc

/-- A token is taken as it is from a list. -/
theorem take {test : Token → Bool} (expected : Expectation)
    (htest : ∀ t, test t = true → t.isEnd = false) (p : tape.Place) :
    (Reading.take test expected).ComesTo p (Parser.takeOutcome test expected (ahead p)) := by
  rw [ahead_eq, Parser.takeOutcome]
  split
  · rename_i h
    have ht := htest _ h
    rw [← bind_pure (Reading.take _ _), ← ahead_next ht]
    exact take_of h ht (pure _ _)
  · rename_i h
    rw [Reading.take, ← ahead_eq]
    refine current ?_
    rw [if_neg h]
    exact fail expected p

/-- A token is expected as it is in a list. -/
theorem expect {kind : TokenKind} (hkind : kind ≠ .endOfText) (text : String) (p : tape.Place) :
    (Reading.expect kind text).ComesTo p (Parser.outcome (Parser.expect kind text (ahead p))) := by
  rw [Parser.outcome_expect_eq]
  exact take _ (fun t ht => Token.isEnd_of_is ht hkind) p

/-- An identifier is taken as it is from a list. -/
theorem identifier (expected : Expectation) (p : tape.Place) :
    (Reading.identifier expected).ComesTo p
      (Parser.takeOutcome (·.kind = .identifier) expected (ahead p)) :=
  take expected (fun t ht => Token.isEnd_of_kind (of_decide_eq_true ht) (by decide)) p

/-- Where no operator of the level stands, the reading stays where it is. -/
theorem link_none {c : Option BinaryOp → Reading tape β} {l : Level}
    (h : (tape.current p).linkOf? l = none) (hc : (c none).ComesTo p o') :
    (Reading.link l >>= c).ComesTo p o' := by
  rw [Reading.link, bind_assoc]
  refine current ?_
  rw [h]
  exact hc

/-- An operator of the level is read, and the reading goes on behind it. -/
theorem link_some {c : Option BinaryOp → Reading tape β} {l : Level} {op : BinaryOp}
    (h : (tape.current p).linkOf? l = some op) (hc : (c (some op)).ComesTo (tape.next p) o') :
    (Reading.link l >>= c).ComesTo p o' := by
  rw [Reading.link, bind_assoc]
  refine current ?_
  rw [h, bind_assoc]
  refine advance (Token.isEnd_of_linkOf? h) ?_
  rw [pure_bind]
  exact hc

end ComesTo

end Reading

end Abacus
