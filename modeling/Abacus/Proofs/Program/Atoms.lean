import Abacus.Proofs.Program.Acceptance
import Abacus.Proofs.Program.Precedence

/-!
# No token is lost

From left to right a program is made of numbers, names and operators: its atoms. So is a token list,
whose other tokens are marks that only say how the atoms belong together. Reading keeps the atoms,
every one once and in order (`Program.atoms_of_ofTokens`).

* `Chain.atoms_toExpr`: joining a chain into a tree keeps the order of its operands and operators.
* `Spells.atoms`: what tokens spell has the atoms of the tokens.
* `Token.atoms_append`: expressions have no targets, so that their tokens count one by one.

The parser stops at the first end of the text and takes a keyword for whatever operator its text
spells (`Program.atoms_behind_end`). Neither shows in what a scan returns
(`Program.atoms_of_tokens`).
-/

namespace Abacus

/-! ## Atoms -/

/-- What programs are made of. -/
inductive Atom where
  | number (value : Float)
  | name (text : String)
  /-- An operator, by one of its spellings. -/
  | operator (spelling : String)
deriving Repr, DecidableEq

/-- The one of two spellings of an operator that stands for both. -/
def commonSpelling (s : String) : String :=
  if s = "&&" then "and" else if s = "||" then "or" else if s = "!" then "not"
  else if s = "**" then "^" else s

/-- The spellings of operators that are words. -/
def operatorWords : List String := ["and", "or", "not"]

/-- The spellings of operators between two operands that are no words. -/
def operatorSigns : List String :=
  ["+", "-", "*", "/", "%", "^", "**", "==", "!=", "<", ">", "<=", ">=", "&&", "||"]

namespace Token

/-- The atom that a token stands for, if it is not the target of an assignment. -/
def atom? (t : Token) : Option Atom :=
  match t.kind with
  | .number => (Number.read? t.text).map .number
  | .identifier => some (.name t.text)
  | .operator =>
    if t.text = "=" ∨ t.text = "=>" then none else some (.operator (commonSpelling t.text))
  | .keyword =>
    if t.text ∈ operatorWords ∨ t.text ∈ operatorSigns then
      some (.operator (commonSpelling t.text))
    else none
  | _ => none

/-- Whether the tokens start with the sign of an assignment. -/
def startsWithAssign : List Token → Bool
  | [] => false
  | t :: _ => t.is .operator "="

/-- The atoms of tokens in their order. A keyword is a name where it is the target of an assignment,
which stands before its sign or behind the keyword of a definition; `defined` says that the latter
comes before the tokens. -/
def atoms (defined : Bool) : List Token → List Atom
  | [] => []
  | t :: ts =>
    (if t.kind = .keyword ∧ (defined || startsWithAssign ts) then [.name t.text]
      else t.atom?.toList) ++ atoms (t.is .keyword "def") ts

end Token

/-- The atom of an operator in front of an operand. -/
def UnaryOp.atom : UnaryOp → Atom
  | neg => .operator "-"
  | not => .operator "not"

/-- The atom of an operator between two operands. -/
def BinaryOp.atom (op : BinaryOp) : Atom := .operator op.symbol

mutual

/-- The atoms of an expression: an operator between two operands comes between theirs, the name of a
function and the parameters of a lambda come first. -/
def Expr.atoms : Expr → List Atom
  | .number v => [.number v]
  | .var name => [.name name]
  | .unary op x => op.atom :: x.atoms
  | .binary op x y => x.atoms ++ op.atom :: y.atoms
  | .conditional c t e => c.atoms ++ (t.atoms ++ e.atoms)
  | .call name args => .name name :: Expr.atomsList args
  | .lambda params body => params.map .name ++ body.atoms

def Expr.atomsList : List Expr → List Atom
  | [] => []
  | x :: xs => x.atoms ++ Expr.atomsList xs

end

/-- The atoms of a statement, the target first. -/
def Stmt.atoms : Stmt → List Atom
  | .assign name x => .name name :: x.atoms
  | .expr x => x.atoms

/-- The atoms of a program. -/
def Program.atoms (p : Program) : List Atom := p.statements.flatMap Stmt.atoms

/-! ## Chains -/

namespace Chain

/-- The atoms of the operands of a chain after the first one, each with its operator before it. -/
def linkAtoms (ls : Links) : List Atom := ls.flatMap fun link => link.1.atom :: link.2.atoms

@[simp] theorem linkAtoms_nil : linkAtoms [] = [] := rfl

@[simp] theorem linkAtoms_cons (op : BinaryOp) (x : Expr) (ls : Links) :
    linkAtoms ((op, x) :: ls) = op.atom :: (x.atoms ++ linkAtoms ls) := by
  simp [linkAtoms]

/-- The atoms of a chain. -/
def atoms (chain : Expr × Links) : List Atom := chain.1.atoms ++ linkAtoms chain.2

/-- A pass joins neighbours. -/
theorem atoms_join (level : Level) (chain : Expr × Links) :
    atoms (join level chain) = atoms chain := by
  obtain ⟨first, ls⟩ := chain
  rw [join]
  split
  all_goals
    rename_i hlevel
    clear hlevel
    induction ls generalizing first with
    | nil => rfl
    | cons link ls ih =>
      obtain ⟨op, y⟩ := link
      by_cases h : op.level = level
      · simp_all [atoms, joinLeft, joinRight, Expr.atoms]
      · simp_all [atoms, joinLeft_cons_ne h, joinRight_cons_ne h]

theorem atoms_joinAll (levels : List Level) (chain : Expr × Links) :
    atoms (joinAll levels chain) = atoms chain := by
  induction levels generalizing chain with
  | nil => rfl
  | cons level levels ih =>
    rw [joinAll, List.foldl_cons, ← joinAll, ih, atoms_join]

/-- All operators belong to some level, so that the passes leave one operand. -/
theorem joinAll_allLevels (chain : Expr × Links) : (joinAll allLevels chain).2 = [] := by
  rw [← List.map_eq_nil_iff, ops_joinAll, List.filter_eq_nil_iff]
  intro op _
  cases op <;> decide

theorem atoms_toExpr (first : Expr) (ls : Links) :
    (toExpr first ls).atoms = first.atoms ++ linkAtoms ls := by
  have h := atoms_joinAll allLevels (first, ls)
  rw [atoms, joinAll_allLevels, linkAtoms_nil, List.append_nil] at h
  rw [toExpr_eq, h, atoms]

end Chain

/-! ## Tokens one by one -/

namespace Token

variable {t : Token} {ts us : List Token} {defined : Bool}

/-- No target of an assignment stands where these tokens are. -/
def Plain (t : Token) : Prop := t.is .operator "=" = false ∧ t.is .keyword "def" = false

theorem atoms_cons_of_kind (ht : t.kind ≠ .keyword) :
    atoms defined (t :: ts) = t.atom?.toList ++ atoms false ts := by
  rw [atoms, if_neg fun h => ht h.1, is_of_kind_ne ht]

/-- Tokens among which there is no target, and behind which none is assigned to, count one by
one. -/
theorem atoms_append (hts : ∀ t ∈ ts, t.Plain) (hus : startsWithAssign us = false) :
    atoms false (ts ++ us) = ts.filterMap atom? ++ atoms false us := by
  induction ts with
  | nil => rfl
  | cons t ts ih =>
    obtain ⟨ht, hts⟩ := List.forall_mem_cons.mp hts
    have hnext : startsWithAssign (ts ++ us) = false := by
      cases ts with
      | nil => exact hus
      | cons u ts => exact (hts u List.mem_cons_self).1
    rw [List.cons_append, atoms, hnext, ht.2, ih hts]
    cases h : t.atom? with
    | none => simp [h]
    | some a => simp [h]

/-- Where there are no keywords, there are no targets. -/
theorem atoms_append_of_kind (hts : ∀ t ∈ ts, t.kind ≠ .keyword) :
    atoms false (ts ++ us) = ts.filterMap atom? ++ atoms false us := by
  induction ts with
  | nil => rfl
  | cons t ts ih =>
    obtain ⟨ht, hts⟩ := List.forall_mem_cons.mp hts
    rw [List.cons_append, atoms_cons_of_kind ht, ih hts]
    cases h : t.atom? with
    | none => simp [h]
    | some a => simp [h]

/-! ### Kinds of tokens -/

theorem atom?_of_identifier (h : t.kind = .identifier) : t.atom? = some (.name t.text) := by
  rw [atom?, h]

theorem atom?_of_delimiter {s : String} (h : t.is .delimiter s) : t.atom? = none := by
  rw [atom?, (is_iff.mp h).1]

theorem atom?_of_arrow (h : t.is .operator "=>") : t.atom? = none := by
  simp [atom?, is_iff.mp h]

theorem atom?_of_assign (h : t.is .operator "=") : t.atom? = none := by
  simp [atom?, is_iff.mp h]

/-- A keyword that spells no operator is a mark. -/
theorem atom?_of_keyword {s : String} (h : t.is .keyword s) (hw : s ∉ operatorWords)
    (hs : s ∉ operatorSigns) : t.atom? = none := by
  simp [atom?, is_iff.mp h, hw, hs]

theorem atom?_of_separator (h : t.isSeparator) : t.atom? = none := by
  rcases kind_of_isSeparator h with hk | hd
  · rw [atom?, hk]
  · exact atom?_of_delimiter hd

theorem atom?_of_prefixOp? {op : UnaryOp} (h : t.prefixOp? = some op) :
    t.atom? = some op.atom := by
  rcases kind_of_prefixOp? h with ⟨hk, ht | ht⟩ | ht
  · cases (show some .neg = some op by simpa [prefixOp?, is, hk, ht] using h)
    simp [atom?, hk, ht, commonSpelling, UnaryOp.atom]
  · cases (show some .not = some op by simpa [prefixOp?, is, hk, ht] using h)
    simp [atom?, hk, ht, commonSpelling, UnaryOp.atom]
  · have hop : op = .not := by simpa [prefixOp?, is, is_iff.mp ht] using h.symm
    simp [atom?, is_iff.mp ht, hop, operatorWords, commonSpelling, UnaryOp.atom]

/-- The spellings of an operator have one common spelling. -/
theorem spelling_of_ofSpelling? {s : String} {op : BinaryOp}
    (h : BinaryOp.ofSpelling? s = some op) :
    commonSpelling s = op.symbol ∧ (s ∈ operatorWords ∨ s ∈ operatorSigns) := by
  have hs := List.find?_some h
  simp only [Bool.or_eq_true, beq_iff_eq] at hs
  rcases hs with hs | hs
  · rw [← hs]
    cases op <;> decide
  · cases op <;> cases hs <;> decide

theorem atom?_of_binaryOp? {op : BinaryOp} (h : t.binaryOp? = some op) :
    t.atom? = some op.atom := by
  have hs := h
  rw [binaryOp?] at hs
  split at hs
  · obtain ⟨hcommon, hmem⟩ := spelling_of_ofSpelling? hs
    rcases kind_of_binaryOp? h with hk | hk
    · have hassign : t.text ≠ "=" := fun he => by rw [he] at hs; cases hs
      have harrow : t.text ≠ "=>" := fun he => by rw [he] at hs; cases hs
      simp [atom?, hk, hassign, harrow, hcommon, BinaryOp.atom]
    · simp [atom?, hk, hmem, hcommon, BinaryOp.atom]
  · cases hs

theorem Plain.of_kind (ho : t.kind ≠ .operator) (hk : t.kind ≠ .keyword) : t.Plain :=
  ⟨is_of_kind_ne ho, is_of_kind_ne hk⟩

theorem Plain.of_is {kind : TokenKind} {s : String} (h : t.is kind s) (hs : s ≠ "=")
    (hd : s ≠ "def") : t.Plain :=
  ⟨is_of_text_ne h hs, is_of_text_ne h hd⟩

theorem Plain.of_binaryOp? {op : BinaryOp} (h : t.binaryOp? = some op) : t.Plain :=
  ⟨is_of_binaryOp? h (by decide), is_of_binaryOp? h (by decide)⟩

theorem Plain.of_prefixOp? {op : UnaryOp} (h : t.prefixOp? = some op) : t.Plain := by
  rcases kind_of_prefixOp? h with ⟨hk, ht | ht⟩ | ht
  · exact .of_is (is_iff.mpr ⟨hk, ht⟩) (by decide) (by decide)
  · exact .of_is (is_iff.mpr ⟨hk, ht⟩) (by decide) (by decide)
  · exact .of_is ht (by decide) (by decide)

end Token

/-! ## What tokens spell -/

/-- The atoms of a phrase. -/
def Phrase.atoms : Phrase → List Atom
  | expr x => x.atoms
  | operand x _ => x.atoms
  | links ls => Chain.linkAtoms ls
  | args xs => Expr.atomsList xs

open Token (Plain)

section Spelled

variable {ts us : List Token}

theorem SpellsMoreParams.atoms {ps : List String} (h : SpellsMoreParams ts ps) :
    (∀ t ∈ ts, t.kind ≠ .operator ∧ t.kind ≠ .keyword) ∧
      ts.filterMap Token.atom? = ps.map .name := by
  induction h with
  | last ht hr =>
    exact ⟨by simp [ht, (Token.is_iff.mp hr).1],
      by simp [Token.atom?_of_identifier ht, Token.atom?_of_delimiter hr]⟩
  | more ht hc _ ih =>
    refine ⟨?_, by simp [Token.atom?_of_identifier ht, Token.atom?_of_delimiter hc, ih.2]⟩
    rw [List.forall_mem_cons, List.forall_mem_cons]
    exact ⟨by simp [ht], by simp [(Token.is_iff.mp hc).1], ih.1⟩

/-- The tokens of parameters are identifiers and delimiters, and their atoms are the names. -/
theorem SpellsParams.atoms {ps : List String} (h : SpellsParams ts ps) :
    (∀ t ∈ ts, t.kind ≠ .operator ∧ t.kind ≠ .keyword) ∧
      ts.filterMap Token.atom? = ps.map .name := by
  cases h with
  | none hr => simp [Token.atom?_of_delimiter hr, (Token.is_iff.mp hr).1]
  | some h => exact h.atoms

/-- There are no targets in an expression. -/
theorem Spells.plain {φ : Phrase} (h : Spells ts φ) : ∀ t ∈ ts, t.Plain := by
  have hident {t : Token} (ht : t.kind = .identifier) : t.Plain :=
    .of_kind (by rw [ht]; decide) (by rw [ht]; decide)
  have hdelim {t : Token} {s : String} (ht : t.is .delimiter s) : t.Plain :=
    .of_kind (by rw [(Token.is_iff.mp ht).1]; decide) (by rw [(Token.is_iff.mp ht).1]; decide)
  have hmark {t : Token} {kind : TokenKind} {s : String} (ht : t.is kind s) (hs : s ≠ "=")
      (hd : s ≠ "def") : t.Plain := .of_is ht hs hd
  -- Inside an expression no token is a sign of assignment or the word that opens a definition:
  -- those two are the ones whose reading depends on what stands around them.
  induction h with
  | number ht => simpa using Plain.of_kind (by rw [ht]; decide) (by rw [ht]; decide)
  | var ht => simpa using hident ht
  | unary ht _ ih => simpa using ⟨.of_prefixOp? ht, ih⟩
  | callNone ht hl hr => simpa using ⟨hident ht, hdelim hl, hdelim hr⟩
  | call ht hl _ hr ih =>
    simp only [List.forall_mem_cons, List.forall_mem_append, List.not_mem_nil, false_implies,
      implies_true, and_true]
    exact ⟨hident ht, hdelim hl, ih, hdelim hr⟩
  | group hl _ hr ih =>
    simp only [List.forall_mem_cons, List.forall_mem_append, List.not_mem_nil, false_implies,
      implies_true, and_true]
    exact ⟨hdelim hl, ih, hdelim hr⟩
  | conditional hi _ ht _ he _ ihx ihy ihz =>
    simp only [List.forall_mem_cons, List.forall_mem_append]
    exact ⟨hmark hi (by decide) (by decide), ihx, hmark ht (by decide) (by decide), ihy,
      hmark he (by decide) (by decide), ihz⟩
  | arrow ht ha _ ih =>
    simp only [List.forall_mem_cons]
    exact ⟨hident ht, hmark ha (by decide) (by decide), ih⟩
  | lambda hl hps ha _ ih =>
    simp only [List.forall_mem_cons, List.forall_mem_append]
    exact ⟨hdelim hl, fun t ht => .of_kind (hps.atoms.1 t ht).1 (hps.atoms.1 t ht).2,
      hmark ha (by decide) (by decide), ih⟩
  | nil => simp
  | cons ht _ _ _ ihx ihls =>
    simp only [List.forall_mem_cons, List.forall_mem_append]
    exact ⟨.of_binaryOp? ht, ihx, ihls⟩
  | expr _ _ _ ihx ihls => exact List.forall_mem_append.mpr ⟨ihx, ihls⟩
  | lastArg _ ih => exact ih
  | moreArgs _ hc _ ihx ihxs =>
    simp only [List.forall_mem_cons, List.forall_mem_append]
    exact ⟨ihx, hdelim hc, ihxs⟩

/-- A phrase has the atoms of its tokens. -/
theorem Spells.atoms {φ : Phrase} (h : Spells ts φ) : ts.filterMap Token.atom? = φ.atoms := by
  induction h with
  | number ht hv => simp [Token.atom?, ht, hv, Phrase.atoms, Expr.atoms]
  | var ht => simp [Token.atom?_of_identifier ht, Phrase.atoms, Expr.atoms]
  | unary ht _ ih =>
    simp only [Phrase.atoms, Expr.atoms] at ih ⊢
    rw [List.filterMap_cons_some (Token.atom?_of_prefixOp? ht), ih]
  | callNone ht hl hr =>
    simp [Token.atom?_of_identifier ht, Token.atom?_of_delimiter hl, Token.atom?_of_delimiter hr,
      Phrase.atoms, Expr.atoms, Expr.atomsList]
  | call ht hl _ hr ih =>
    simp [Token.atom?_of_identifier ht, Token.atom?_of_delimiter hl, Token.atom?_of_delimiter hr,
      ih, Phrase.atoms, Expr.atoms]
  | group hl _ hr ih =>
    simp [Token.atom?_of_delimiter hl, Token.atom?_of_delimiter hr, ih, Phrase.atoms]
  | conditional hi _ ht _ he _ ihx ihy ihz =>
    simp [Token.atom?_of_keyword hi (by decide) (by decide),
      Token.atom?_of_keyword ht (by decide) (by decide),
      Token.atom?_of_keyword he (by decide) (by decide), ihx, ihy, ihz, Phrase.atoms, Expr.atoms]
  | arrow ht ha _ ih =>
    simp [Token.atom?_of_identifier ht, Token.atom?_of_arrow ha, ih, Phrase.atoms, Expr.atoms]
  | lambda hl hps ha _ ih =>
    simp [Token.atom?_of_delimiter hl, Token.atom?_of_arrow ha, hps.atoms.2, ih, Phrase.atoms,
      Expr.atoms]
  | nil => rfl
  | cons ht _ _ _ ihx ihls =>
    simp [Token.atom?_of_binaryOp? ht, ihx, ihls, Phrase.atoms]
  | expr _ _ _ ihx ihls =>
    simp only [Phrase.atoms] at ihx ihls ⊢
    rw [List.filterMap_append, ihx, ihls, Chain.atoms_toExpr]
  | lastArg _ ih => simp [ih, Phrase.atoms, Expr.atomsList]
  | moreArgs _ hc _ ihx ihxs =>
    simp [Token.atom?_of_delimiter hc, ihx, ihxs, Phrase.atoms, Expr.atomsList]

/-- The atoms of an expression's tokens, whatever comes behind. -/
theorem Spells.atoms_append {x : Expr} (h : Spells ts (.expr x))
    (hus : Token.startsWithAssign us = false) :
    Token.atoms false (ts ++ us) = x.atoms ++ Token.atoms false us := by
  rw [Token.atoms_append h.plain hus, h.atoms, Phrase.atoms]

/-- A statement has the atoms of its tokens. -/
theorem SpellsStmt.atoms {s : Stmt} (h : SpellsStmt ts s)
    (hus : Token.startsWithAssign us = false) :
    Token.atoms false (ts ++ us) = s.atoms ++ Token.atoms false us := by
  -- The sign itself contributes nothing, whatever stands behind it.
  have hsign {e : Token} {vs : List Token} (he : e.is .operator "=") :
      Token.atoms false (e :: vs) = Token.atoms false vs := by
    rw [Token.atoms_cons_of_kind (by rw [(Token.is_iff.mp he).1]; decide), Token.atom?_of_assign he]
    rfl
  cases h with
  | @definition d t l e ps ts names x hd ht hl hps he hx =>
    have hd' : d.atom? = none := Token.atom?_of_keyword hd (by decide) (by decide)
    have hl' : l.kind ≠ .keyword := by rw [(Token.is_iff.mp hl).1]; decide
    have hnext : Token.startsWithAssign (t :: l :: (ps ++ e :: (ts ++ us))) = false := by
      apply Token.is_of_kind_ne
      rcases Token.kind_of_isName ht with hk | hk
      · rw [hk]; decide
      · rw [hk]; decide
    -- Behind `def` the target is a name even where it is written with a keyword.
    have htarget (vs : List Token) (b : Bool) (hvs : Token.atoms b vs = Token.atoms false vs)
        (hb : t.is .keyword "def" = b) :
        Token.atoms true (t :: vs) = .name t.text :: Token.atoms false vs := by
      rcases Token.kind_of_isName ht with hk | hk
      · simp [Token.atoms, hk, hb, hvs, Token.atom?_of_identifier hk]
      · simp [Token.atoms, hk, hb, hvs]
    have hopen (b : Bool) (vs : List Token) :
        Token.atoms b (l :: vs) = Token.atoms false vs := by
      rw [Token.atoms_cons_of_kind hl', Token.atom?_of_delimiter hl]
      rfl
    calc Token.atoms false (d :: t :: l :: (ps ++ e :: ts) ++ us)
        = Token.atoms false (d :: t :: l :: (ps ++ e :: (ts ++ us))) := by simp
      _ = Token.atoms true (t :: l :: (ps ++ e :: (ts ++ us))) := by
          rw [Token.atoms, hnext, hd, hd']
          simp
      _ = .name t.text :: Token.atoms false (ps ++ e :: (ts ++ us)) := by
          rw [htarget _ _ ((hopen _ _).trans (hopen _ _).symm) rfl, hopen]
      _ = .name t.text :: (names.map .name ++ (x.atoms ++ Token.atoms false us)) := by
          rw [Token.atoms_append_of_kind fun t ht => (hps.atoms.1 t ht).2, hps.atoms.2, hsign he,
            hx.atoms_append hus]
      _ = Stmt.atoms (.assign t.text (.lambda names x)) ++ Token.atoms false us := by
          simp [Stmt.atoms, Expr.atoms]
  | @assign t e ts x ht hd he hx =>
    rw [List.cons_append, List.cons_append, Token.atoms, hd, hsign he, hx.atoms_append hus]
    rcases Token.kind_of_isName ht with hk | hk
    · simp [hk, Token.atom?_of_identifier hk, Stmt.atoms]
    · simp [hk, Token.startsWithAssign, he, Stmt.atoms]
  | expr hx => exact hx.atoms_append hus

end Spelled

/-! ## What is read -/

namespace Token

/-- The tokens before the first end of the text. -/
def untilEnd (ts : List Token) : List Token := ts.takeWhile fun t => !t.isEnd

theorem untilEnd_append {ts us : List Token} (hts : NoEnd ts) :
    untilEnd (ts ++ us) = ts ++ untilEnd us :=
  List.takeWhile_append_of_pos fun t ht => by simp [hts t ht]

theorem untilEnd_end {e : Token} {us : List Token} (he : e.isEnd) : untilEnd (e :: us) = [] :=
  List.takeWhile_cons_of_neg (by simp [he])

/-- An end behind all tokens changes nothing. -/
theorem untilEnd_closed (ts : List Token) : untilEnd (Parser.closed ts) = untilEnd ts := by
  have happend (pos : Nat) : untilEnd (ts ++ [endAt pos]) = untilEnd ts := by
    rw [untilEnd, untilEnd, List.takeWhile_append]
    split
    · rename_i h
      rw [List.takeWhile_cons_of_neg (by simp [endAt, isEnd]), List.append_nil,
        ((List.takeWhile_prefix _).eq_of_length h)]
    · rfl
  cases hlast : ts.getLast? with
  | none =>
    rw [List.getLast?_eq_none_iff.mp hlast]
    rfl
  | some t =>
    simp only [Parser.closed, hlast]
    split
    · rfl
    · exact happend _

/-- The end of the text is a mark. -/
theorem atoms_append_end {ts : List Token} {e : Token} {defined : Bool} (he : e.isEnd) :
    atoms defined (ts ++ [e]) = atoms defined ts := by
  induction ts generalizing defined with
  | nil => simp [atoms, atom?, kind_of_isEnd he]
  | cons t ts ih =>
    have hnext : startsWithAssign (ts ++ [e]) = startsWithAssign ts := by
      cases ts with
      | nil => exact is_of_kind_ne (by rw [kind_of_isEnd he]; decide)
      | cons u us => rfl
    rw [List.cons_append, atoms, atoms, hnext, ih]

/-- Separators are marks. -/
theorem atoms_separators {seps ts : List Token} (h : Separators seps) :
    atoms false (seps ++ ts) = atoms false ts := by
  have hkind : ∀ t ∈ seps, t.kind ≠ .keyword := fun t ht =>
    (Parser.kind_of_endsStmt (.inr (h t ht))).2.1
  rw [atoms_append_of_kind hkind,
    List.filterMap_eq_nil_iff.mpr fun t ht => atom?_of_separator (h t ht), List.nil_append]

end Token

open Token (untilEnd untilEnd_append untilEnd_end)

namespace Parser

/-- Skipping separators skips no atom. -/
theorem atoms_skipSeparators (ts : List Token) :
    Token.atoms false (untilEnd (skipSeparators ts)) = Token.atoms false (untilEnd ts) := by
  obtain ⟨seps, hts, hseps, -⟩ := skipSeparators_spec ts
  calc Token.atoms false (untilEnd (skipSeparators ts))
      = Token.atoms false (seps ++ untilEnd (skipSeparators ts)) :=
        (Token.atoms_separators hseps).symm
    _ = Token.atoms false (untilEnd ts) := by
        rw [← untilEnd_append hseps.noEnd, ← hts]

/-- The statements that are read without an error have the atoms of the tokens. -/
theorem atoms_statementsFrom {ts : List Token} {ss : List Stmt}
    (h : statementsFrom ts = ⟨ss, none⟩) :
    ss.flatMap Stmt.atoms = Token.atoms false (untilEnd ts) := by
  -- The recursion follows the reading of one statement and its separators.
  cases ts with
  | nil =>
    rw [statementsFrom] at h
    cases h
    rfl
  | cons t us =>
    by_cases ht : t.isEnd
    · rw [statementsFrom_end ht] at h
      cases h
      rw [untilEnd_end ht]
      rfl
    rw [Bool.not_eq_true] at ht
    cases hs : stmt (t :: us) with
    | error err =>
      rw [statementsFrom_error ht hs] at h
      cases h
    | ok r =>
      obtain ⟨s, rest, hlt⟩ := r
      obtain ⟨vs, hvs, hspells⟩ := stmt_sound ⟨hlt, hs⟩
      rw [statementsFrom_cons ht ⟨hlt, hs⟩] at h
      -- What stands behind the end token is not read, and has no atoms either.
      rw [hvs, untilEnd_append hspells.noEnd]
      cases rest with
      | nil =>
        cases h
        rw [hspells.atoms rfl]
        simp [untilEnd, Token.atoms]
      | cons v ws =>
        rw [statementsAfter] at h
        split at h
        · rename_i hv
          cases h
          rw [untilEnd_end hv, hspells.atoms rfl]
          simp [Token.atoms]
        · split at h
          · rename_i hv
            cases hmore : statementsFrom (skipSeparators ws) with | mk read failure
            rw [hmore] at h
            cases h
            -- The statements behind the separators are fewer tokens.
            have hlen : (skipSeparators ws).length < (t :: us).length :=
              Nat.lt_of_le_of_lt (length_skipSeparators_le ws)
                (Nat.lt_trans (Nat.lt_succ_self _) hlt)
            have hnext : Token.startsWithAssign (v :: untilEnd ws) = false :=
              Token.is_of_kind_ne (kind_of_endsStmt (.inr hv)).1
            have hseparator : Token.atoms false (v :: untilEnd ws) =
                Token.atoms false (untilEnd ws) :=
              Token.atoms_separators (List.forall_mem_singleton.mpr hv)
            rw [List.flatMap_cons, atoms_statementsFrom hmore, atoms_skipSeparators,
              ← List.singleton_append, untilEnd_append (by simp [Token.isEnd_of_separator hv]),
              List.singleton_append, hspells.atoms hnext, hseparator]
          · cases h
termination_by ts.length

end Parser

/-- A program has the atoms of the tokens that it is read from, every one once and in order. -/
theorem Program.atoms_of_ofTokens {ts : List Token} {p : Program}
    (h : Program.ofTokens ts = .ok p) : p.atoms = Token.atoms false (untilEnd ts) := by
  rw [Program.ofTokens] at h
  split at h
  · cases h
  rw [Parser.program] at h
  split at h
  · rename_i hread
    cases h
    rw [Program.atoms, Parser.atoms_statementsFrom hread, Parser.atoms_skipSeparators,
      Token.untilEnd_closed]
  · cases h

/-- A definition of a keyword as a function: one keyword is a target, the next one an operator. -/
theorem Program.atoms_of_ofTokens_definition :
    let ts : List Token := [⟨.keyword, "def", 0⟩, ⟨.keyword, "not", 4⟩, ⟨.delimiter, "(", 7⟩,
      ⟨.identifier, "x", 8⟩, ⟨.delimiter, ")", 9⟩, ⟨.operator, "=", 11⟩, ⟨.keyword, "not", 13⟩,
      ⟨.identifier, "x", 17⟩, ⟨.operator, "**", 19⟩, ⟨.number, "2", 22⟩]
    let p : Program := ⟨[.assign "not" (.lambda ["x"]
      (.binary .pow (.unary .not (.var "x")) (.number 2)))]⟩
    Program.ofTokens ts = .ok p ∧ p.atoms = Token.atoms false (untilEnd ts) := by
  intro ts p
  have h : Program.ofTokens ts = .ok p := by decide +kernel
  exact ⟨h, atoms_of_ofTokens h⟩

/-- Tokens behind an end of the text are accepted and are no part of the program, and a keyword
between two operands is the operator that its text spells, whether or not that is a word. -/
theorem Program.atoms_behind_end :
    let x : Token := ⟨.identifier, "x", 0⟩
    let y : Token := ⟨.identifier, "y", 1⟩
    let p : Program := ⟨[.expr (.var "x")]⟩
    let q : Program := ⟨[.expr (.binary .add (.var "x") (.var "y"))]⟩
    (Program.ofTokens [x, Token.endAt 1, y, Token.endAt 2] = .ok p ∧
        p.atoms ≠ Token.atoms false [x, Token.endAt 1, y, Token.endAt 2]) ∧
      Program.ofTokens [x, ⟨.keyword, "+", 1⟩, y, Token.endAt 2] = .ok q ∧
        q.atoms ≠ Token.atoms false [x, y, Token.endAt 2] := by
  decide +kernel

/-- No sign starts like a word. -/
theorem not_isWord_of_mem_operatorSigns {s : String} (h : s ∈ operatorSigns) : ¬ IsWord s := by
  rintro ⟨c, cs, hs, hc, -⟩
  have hstart : operatorSigns.all fun s => s.toList.head?.all fun c => !Lexicon.isWordStart c := by
    decide
  have hsign := List.all_eq_true.mp hstart s h
  rw [hs] at hsign
  simp [hc] at hsign

/-- A scan returns one end of the text, the last token, and keywords that are words. So all of its
tokens count, and no keyword counts as an operator but the three words. -/
theorem Program.atoms_of_tokens {l : Lexicon} {source : String} {ts : List Token} {p : Program}
    (hts : l.tokens source = .ok ts) (h : Program.ofTokens ts = .ok p) :
    p.atoms = Token.atoms false ts ∧
      ∀ t ∈ ts, t.kind = .keyword → t.text ∉ operatorSigns := by
  obtain ⟨body, rfl, hbody⟩ := Lexicon.tokens_ok hts
  have hend : NoEnd body := fun t ht => (hbody t ht).1.not_end
  constructor
  · rw [atoms_of_ofTokens h, untilEnd_append hend, untilEnd_end rfl, List.append_nil,
      Token.atoms_append_end rfl]
  · intro t ht hk hs
    rcases List.mem_append.mp ht with ht | ht
    · have hfits := (hbody t ht).1
      rw [hk] at hfits
      exact not_isWord_of_mem_operatorSigns hs hfits.1
    · rw [List.mem_singleton.mp ht] at hk
      cases hk

end Abacus
