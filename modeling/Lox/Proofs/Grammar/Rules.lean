import Lox.Token.Basic
import Lox.Syntax.Cursor
/-!
# The grammar

The rules of the language, each with the phrase it stands for: a phrase is made of tokens and rules
by sequence, choice, option and repetition. A rule derives the words that its phrase matches when
the rules in it are taken for what they derive in turn, so what the rules derive is the least
language that fits them all. The grammar is ambiguous: of two conditionals and one `else` it does
not say which of the two the `else` belongs to.
-/

namespace Lox

/-- What the rules of the grammar are about. -/
inductive Rule where
  | program | declaration | classDecl | funDecl | function | parameters | varDecl
  | statement | exprStmt | forStmt | ifStmt | printStmt | returnStmt | whileStmt | block
  | expression | assignment | logicOr | logicAnd | equality | comparison | term | factor
  | unary | call | arguments | primary
deriving DecidableEq, Repr

/-- The right side of a rule. -/
inductive Phrase where
  | word (w : Keyword)
  | sign (s : Symbol)
  | number
  | string
  | name
  | rule (r : Rule)
  | seq (first second : Phrase)
  | either (left right : Phrase)
  | optional (p : Phrase)
  | many (p : Phrase)
  /-- No more than `n` repetitions. -/
  | upTo (n : Nat) (p : Phrase)

namespace Phrase

instance : Append Phrase := ⟨seq⟩

instance : OrOp Phrase := ⟨either⟩

end Phrase

open Phrase in
/-- The phrase that a rule stands for. Only the number of parameters and of arguments is limited. -/
def Rule.phrase : Rule → Phrase
  | program => many (rule declaration)
  | declaration => rule classDecl ||| rule funDecl ||| rule varDecl ||| rule statement
  | classDecl =>
    word .cls ++ name ++ optional (sign .less ++ name) ++ sign .leftBrace ++ many (rule function) ++
      sign .rightBrace
  | funDecl => word .fun ++ rule function
  | function =>
    name ++ sign .leftParen ++ optional (rule parameters) ++ sign .rightParen ++ rule block
  | parameters => name ++ upTo (maxArity - 1) (sign .comma ++ name)
  | varDecl => word .var ++ name ++ optional (sign .eq ++ rule expression) ++ sign .semicolon
  | statement =>
    rule exprStmt ||| rule forStmt ||| rule ifStmt ||| rule printStmt ||| rule returnStmt |||
      rule whileStmt |||
      rule block
  | exprStmt => rule expression ++ sign .semicolon
  | forStmt =>
    word .for ++ sign .leftParen ++ (rule varDecl ||| rule exprStmt ||| sign .semicolon) ++
      optional (rule expression) ++ sign .semicolon ++ optional (rule expression) ++
        sign .rightParen ++
      rule statement
  | ifStmt =>
    word .if ++ sign .leftParen ++ rule expression ++ sign .rightParen ++ rule statement ++
      optional (word .else ++ rule statement)
  | printStmt => word .print ++ rule expression ++ sign .semicolon
  | returnStmt => word .return ++ optional (rule expression) ++ sign .semicolon
  | whileStmt =>
    word .while ++ sign .leftParen ++ rule expression ++ sign .rightParen ++ rule statement
  | block => sign .leftBrace ++ many (rule declaration) ++ sign .rightBrace
  | expression => rule assignment
  | assignment =>
    optional (rule call ++ sign .dot) ++ name ++ sign .eq ++ rule assignment ||| rule logicOr
  | logicOr => rule logicAnd ++ many (word .or ++ rule logicAnd)
  | logicAnd => rule equality ++ many (word .and ++ rule equality)
  | equality => rule comparison ++ many ((sign .bangEq ||| sign .eqEq) ++ rule comparison)
  | comparison =>
    rule term ++
      many ((sign .greater ||| sign .greaterEq ||| sign .less ||| sign .lessEq) ++ rule term)
  | term => rule factor ++ many ((sign .minus ||| sign .plus) ++ rule factor)
  | factor => rule unary ++ many ((sign .slash ||| sign .star) ++ rule unary)
  | unary => (sign .bang ||| sign .minus) ++ rule unary ||| rule call
  | call =>
    rule primary ++
      many (sign .leftParen ++ optional (rule arguments) ++ sign .rightParen ||| sign .dot ++ name)
  | arguments => rule expression ++ upTo (maxArity - 1) (sign .comma ++ rule expression)
  | primary =>
    word .true ||| word .false ||| word .nil ||| word .this ||| number ||| string ||| name |||
      sign .leftParen ++ rule expression ++ sign .rightParen ||| word .super ++ sign .dot ++ name

/-- Whether a phrase matches a word, when each rule in it stands for the words that `D` says. -/
def Phrase.Matches (D : Rule → List TokenKind → Prop) : Phrase → List TokenKind → Prop
  | word k, w => w = [.keyword k]
  | sign s, w => w = [.symbol s]
  | number, w => ∃ x, w = [.number x]
  | string, w => ∃ s, w = [.string s]
  | name, w => ∃ x, w = [.identifier x]
  | rule r, w => D r w
  | seq p q, w => ∃ u v, w = u ++ v ∧ p.Matches D u ∧ q.Matches D v
  | either p q, w => p.Matches D w ∨ q.Matches D w
  | optional p, w => w = [] ∨ p.Matches D w
  | many p, w => ∃ ws : List (List TokenKind), w = ws.flatten ∧ ∀ u ∈ ws, p.Matches D u
  | upTo n p, w =>
    ∃ ws : List (List TokenKind), w = ws.flatten ∧ ws.length ≤ n ∧ ∀ u ∈ ws, p.Matches D u

/-- What a rule derives when rules are taken for their phrases at most `n` times, one
inside the other. -/
def Rule.DerivesIn : Nat → Rule → List TokenKind → Prop
  | 0, _, _ => False
  | n + 1, r, w => r.phrase.Matches (DerivesIn n) w

/-- What a rule derives. -/
def Rule.Derives (r : Rule) (w : List TokenKind) : Prop := ∃ n, r.DerivesIn n w

namespace Phrase

variable {D E : Rule → List TokenKind → Prop} {p q : Phrase} {w : List TokenKind}

@[simp] theorem matches_append :
    (p ++ q).Matches D w ↔ ∃ u v, w = u ++ v ∧ p.Matches D u ∧ q.Matches D v := Iff.rfl

@[simp] theorem matches_or : (p ||| q).Matches D w ↔ p.Matches D w ∨ q.Matches D w := Iff.rfl

theorem Matches.mono (h : p.Matches D w) (hD : ∀ r w, D r w → E r w) : p.Matches E w := by
  induction p generalizing w with
  | word | sign | number | string | name => exact h
  | rule r => exact hD r w h
  | seq p q hp hq =>
    obtain ⟨u, v, rfl, hu, hv⟩ := h
    exact ⟨u, v, rfl, hp hu, hq hv⟩
  | either p q hp hq => exact h.imp hp hq
  | optional p hp => exact h.imp id hp
  | many p hp =>
    obtain ⟨ws, rfl, hws⟩ := h
    exact ⟨ws, rfl, fun u hu => hp (hws u hu)⟩
  | upTo n p hp =>
    obtain ⟨ws, rfl, hn, hws⟩ := h
    exact ⟨ws, rfl, hn, fun u hu => hp (hws u hu)⟩

end Phrase

namespace Rule

variable {r : Rule} {w : List TokenKind}

theorem DerivesIn.mono {n m : Nat} (hnm : n ≤ m) (h : r.DerivesIn n w) : r.DerivesIn m w := by
  induction n generalizing m r w with
  | zero => exact h.elim
  | succ n ih =>
    obtain ⟨m, rfl⟩ := Nat.exists_eq_add_of_le' (Nat.le_trans (Nat.le_add_left 1 _) hnm)
    exact Phrase.Matches.mono h fun r w => ih (Nat.le_of_succ_le_succ hnm)

/-- Finitely many derivations have a common depth. -/
theorem exists_derivesIn_forall {P : Nat → List TokenKind → Prop}
    (hmono : ∀ {n m w}, n ≤ m → P n w → P m w) (ws : List (List TokenKind))
    (h : ∀ w ∈ ws, ∃ n, P n w) : ∃ n, ∀ w ∈ ws, P n w := by
  induction ws with
  | nil => exact ⟨0, nofun⟩
  | cons w ws ih =>
    obtain ⟨n, hn⟩ := h w List.mem_cons_self
    obtain ⟨m, hm⟩ := ih fun u hu => h u (List.mem_cons_of_mem _ hu)
    refine ⟨max n m, List.forall_mem_cons.mpr ⟨hmono (Nat.le_max_left n m) hn, fun u hu => ?_⟩⟩
    exact hmono (Nat.le_max_right n m) (hm u hu)

private theorem exists_matches_derivesIn {p : Phrase} (h : p.Matches Derives w) :
    ∃ n, p.Matches (DerivesIn n) w := by
  have hmono : ∀ {p : Phrase} {n m w}, n ≤ m → p.Matches (DerivesIn n) w →
      p.Matches (DerivesIn m) w :=
    fun hnm h => h.mono fun _ _ => DerivesIn.mono hnm
  induction p generalizing w with
  | word | sign | number | string | name => exact ⟨0, h⟩
  | rule r => exact h
  | seq p q hp hq =>
    obtain ⟨u, v, rfl, hu, hv⟩ := h
    obtain ⟨n, hn⟩ := hp hu
    obtain ⟨m, hm⟩ := hq hv
    exact ⟨max n m, u, v, rfl, hmono (Nat.le_max_left n m) hn, hmono (Nat.le_max_right n m) hm⟩
  | either p q hp hq =>
    rcases h with h | h
    · exact (hp h).imp fun _ => .inl
    · exact (hq h).imp fun _ => .inr
  | optional p hp =>
    rcases h with rfl | h
    · exact ⟨0, .inl rfl⟩
    · exact (hp h).imp fun _ => .inr
  | many p hp =>
    obtain ⟨ws, rfl, hws⟩ := h
    obtain ⟨n, hn⟩ := exists_derivesIn_forall (P := fun n => p.Matches (DerivesIn n)) hmono ws
      fun u hu => hp (hws u hu)
    exact ⟨n, ws, rfl, hn⟩
  | upTo k p hp =>
    obtain ⟨ws, rfl, hk, hws⟩ := h
    obtain ⟨n, hn⟩ := exists_derivesIn_forall (P := fun n => p.Matches (DerivesIn n)) hmono ws
      fun u hu => hp (hws u hu)
    exact ⟨n, ws, rfl, hk, hn⟩

/-- What the phrase of a rule matches, the rule derives. -/
theorem derives_of_matches (h : r.phrase.Matches Derives w) : r.Derives w := by
  obtain ⟨n, hn⟩ := exists_matches_derivesIn h
  exact ⟨n + 1, hn⟩

theorem derives_iff_matches : r.Derives w ↔ r.phrase.Matches Derives w := by
  refine ⟨?_, derives_of_matches⟩
  rintro ⟨_ | n, hn⟩
  · exact hn.elim
  · exact Phrase.Matches.mono hn fun r w h => ⟨n, h⟩

/-- What holds of all words that the phrases of the rules match, if it holds of the words that the
rules in them stand for, holds of all words that the rules derive. -/
theorem Derives.induct {P : Rule → List TokenKind → Prop}
    (hP : ∀ r w, r.phrase.Matches P w → P r w) (h : r.Derives w) : P r w := by
  obtain ⟨n, hn⟩ := h
  induction n generalizing r w with
  | zero => exact hn.elim
  | succ n ih => exact hP r w (Phrase.Matches.mono hn fun r w => ih)

end Rule

end Lox
