import Mathlib.Data.List.Forall2
import Lox.Syntax.Statement
/-!
# Writing trees out

The tokens that a tree is written with, and the trees that these tokens determine. In a canonical
tree each operand stands at a precedence that its place allows, with a grouping where parentheses
are needed, and no conditional with an `else` has a branch before it that an `else` could be taken
into. A loop that was read from a `for` can be written in two ways, so for statements there is a
relation besides: which words a statement is written as.
-/

namespace Lox

/-! ### Operators -/

/-- Higher numbers bind less tightly: calls are at 0, unary operators at 1, assignments at 8. -/
def Level.precedence : Level → Nat
  | or => 7
  | and => 6
  | equality => 5
  | comparison => 4
  | term => 3
  | factor => 2

namespace InfixOp

def level : InfixOp → Level
  | logical .or => .or
  | logical .and => .and
  | binary .equal | binary .notEqual => .equality
  | binary .greater | binary .greaterEqual | binary .less | binary .lessEqual => .comparison
  | binary .add | binary .subtract => .term
  | binary .multiply | binary .divide => .factor

def token : InfixOp → TokenKind
  | logical .or => .keyword .or
  | logical .and => .keyword .and
  | binary .equal => .symbol .eqEq
  | binary .notEqual => .symbol .bangEq
  | binary .greater => .symbol .greater
  | binary .greaterEqual => .symbol .greaterEq
  | binary .less => .symbol .less
  | binary .lessEqual => .symbol .lessEq
  | binary .add => .symbol .plus
  | binary .subtract => .symbol .minus
  | binary .multiply => .symbol .star
  | binary .divide => .symbol .slash

def precedence (op : InfixOp) : Nat := op.level.precedence

/-- The node of `l op r`. -/
def node (op : InfixOp) (s : Site) (l : Expr) (t : Span) (r : Expr) : Expr :=
  match op with
  | logical o => .logical s l o r
  | binary o => .binary s l o t r

end InfixOp

def UnaryOp.token : UnaryOp → TokenKind
  | negate => .symbol .minus
  | not => .symbol .bang

def Literal.token : Literal → TokenKind
  | nil => .keyword .nil
  | bool true => .keyword .true
  | bool false => .keyword .false
  | number x => .number x
  | string s => .string s

def Ident.token (x : Ident) : TokenKind := .identifier x.name

/-- Words with commas between them. -/
def separated (ws : List (List TokenKind)) : List TokenKind :=
  [TokenKind.symbol .comma].intercalate ws

/-! ### Expressions -/

def Expr.precedence : Expr → Nat
  | .assign .. | .set .. => 8
  | .logical _ _ op _ => (InfixOp.logical op).precedence
  | .binary _ _ op _ _ => (InfixOp.binary op).precedence
  | .unary .. => 1
  | .literal .. | .grouping .. | .var .. | .call .. | .get .. | .this .. | .super .. => 0

mutual

def Expr.tokens : Expr → List TokenKind
  | .literal _ v => [v.token]
  | .grouping _ e => .symbol .leftParen :: (e.tokens ++ [.symbol .rightParen])
  | .unary _ op _ e => op.token :: e.tokens
  | .binary _ l op _ r => l.tokens ++ (InfixOp.binary op).token :: r.tokens
  | .logical _ l op r => l.tokens ++ (InfixOp.logical op).token :: r.tokens
  | .var _ x => [x.token]
  | .assign _ x v => x.token :: .symbol .eq :: v.tokens
  | .call _ f _ es =>
    f.tokens ++ .symbol .leftParen :: (separated (Expr.tokensAll es) ++ [.symbol .rightParen])
  | .get _ e x => e.tokens ++ [.symbol .dot, x.token]
  | .set _ e x v => e.tokens ++ .symbol .dot :: x.token :: .symbol .eq :: v.tokens
  | .this _ => [.keyword .this]
  | .super _ x => [.keyword .super, .symbol .dot, x.token]

def Expr.tokensAll : List Expr → List (List TokenKind)
  | [] => []
  | e :: es => e.tokens :: Expr.tokensAll es

end

mutual

/-- Operators between two operands associate to the left, so an operand of the same precedence may
stand on that side only. Calls and property accesses are made to what binds most tightly. -/
def Expr.Canonical : Expr → Prop
  | .literal .. | .var .. | .this .. | .super .. => True
  | .grouping _ e => e.Canonical
  | .unary _ _ _ e => e.Canonical ∧ e.precedence ≤ 1
  | .binary _ l op _ r =>
    l.Canonical ∧ l.precedence ≤ (InfixOp.binary op).precedence ∧
      r.Canonical ∧ r.precedence < (InfixOp.binary op).precedence
  | .logical _ l op r =>
    l.Canonical ∧ l.precedence ≤ (InfixOp.logical op).precedence ∧
      r.Canonical ∧ r.precedence < (InfixOp.logical op).precedence
  | .assign _ _ v => v.Canonical
  | .call _ f _ es => f.Canonical ∧ f.precedence = 0 ∧ es.length ≤ maxArity ∧ Expr.CanonicalAll es
  | .get _ e _ => e.Canonical ∧ e.precedence = 0
  | .set _ e _ v => e.Canonical ∧ e.precedence = 0 ∧ v.Canonical

def Expr.CanonicalAll : List Expr → Prop
  | [] => True
  | e :: es => e.Canonical ∧ Expr.CanonicalAll es

end

namespace InfixOp

variable (op : InfixOp) (s : Site) (l : Expr) (t : Span) (r : Expr)

@[simp] theorem precedence_node :
    (op.node s l t r).precedence = op.precedence := by cases op <;> rfl

@[simp] theorem tokens_node :
    (op.node s l t r).tokens = l.tokens ++ op.token :: r.tokens := by cases op <;> rfl

@[simp] theorem canonical_node : (op.node s l t r).Canonical ↔
    l.Canonical ∧ l.precedence ≤ op.precedence ∧ r.Canonical ∧ r.precedence < op.precedence := by
  cases op <;> rfl

end InfixOp

/-! ### Statements -/

namespace Stmt

/-- Whether a declaration is a statement, and may be a branch or a body. -/
def isStatement : Stmt → Bool
  | var .. | function .. | classDecl .. => false
  | expr .. | print .. | block .. | ifElse .. | whileLoop .. | returning .. => true

/-- Whether a statement ends in a conditional without an `else`. -/
def endsOpen : Stmt → Bool
  | ifElse _ _ _ none => true
  | ifElse _ _ _ (some s) => s.endsOpen
  | whileLoop _ _ s => s.endsOpen
  | _ => false

end Stmt

/-- The tokens of an expression that may be left out. -/
def Expr.optionTokens : Option Expr → List TokenKind
  | none => []
  | some e => e.tokens

/-- The tokens that give a variable its first value. -/
def Expr.initialTokens : Option Expr → List TokenKind
  | none => []
  | some e => .symbol .eq :: e.tokens

def Superclass.tokens : Option Superclass → List TokenKind
  | none => []
  | some p => [.symbol .less, p.name.token]

/-- The tokens of a variable declaration. -/
def Stmt.varTokens (x : Ident) (initial : Option Expr) : List TokenKind :=
  .keyword .var :: x.token :: (Expr.initialTokens initial ++ [.symbol .semicolon])

/-- The tokens of a function with the body `w`. -/
def FunctionDecl.tokensWith (x : Ident) (ps : List Ident) (w : List TokenKind) : List TokenKind :=
  x.token :: .symbol .leftParen :: (separated (ps.map fun p => [p.token]) ++
    .symbol .rightParen :: .symbol .leftBrace :: (w ++ [.symbol .rightBrace]))

/-- The tokens of a class with the methods `w`. -/
def Stmt.classTokens (x : Ident) (p : Option Superclass) (w : List TokenKind) : List TokenKind :=
  .keyword .cls :: x.token ::
    (Superclass.tokens p ++ .symbol .leftBrace :: (w ++ [.symbol .rightBrace]))

/-- The tokens of a word with a condition in parentheses after it. -/
def Stmt.headTokens (k : Keyword) (c : Expr) : List TokenKind :=
  .keyword k :: .symbol .leftParen :: (c.tokens ++ [.symbol .rightParen])

mutual

def Stmt.tokens : Stmt → List TokenKind
  | .expr _ e => e.tokens ++ [.symbol .semicolon]
  | .print _ e => .keyword .print :: (e.tokens ++ [.symbol .semicolon])
  | .var _ x e => Stmt.varTokens x e
  | .block _ b => .symbol .leftBrace :: (Stmt.tokensAll b ++ [.symbol .rightBrace])
  | .ifElse _ c s none => Stmt.headTokens .if c ++ s.tokens
  | .ifElse _ c s (some t) => Stmt.headTokens .if c ++ (s.tokens ++ .keyword .else :: t.tokens)
  | .whileLoop _ c s => Stmt.headTokens .while c ++ s.tokens
  | .function d => .keyword .fun :: d.tokens
  | .classDecl _ x p ms => Stmt.classTokens x p (FunctionDecl.tokensAll ms)
  | .returning _ _ e => .keyword .return :: (Expr.optionTokens e ++ [.symbol .semicolon])

def Stmt.tokensAll : List Stmt → List TokenKind
  | [] => []
  | s :: ss => s.tokens ++ Stmt.tokensAll ss

def FunctionDecl.tokens : FunctionDecl → List TokenKind
  | .mk x ps b _ => FunctionDecl.tokensWith x ps (Stmt.tokensAll b)

def FunctionDecl.tokensAll : List FunctionDecl → List TokenKind
  | [] => []
  | d :: ds => d.tokens ++ FunctionDecl.tokensAll ds

end

mutual

/-- Branches and bodies are statements, and an `else` stands at the nearest conditional that
it can belong to. -/
def Stmt.Canonical : Stmt → Prop
  | .expr _ e | .print _ e => e.Canonical
  | .var _ _ e | .returning _ _ e => ∀ v ∈ e, v.Canonical
  | .block _ b => Stmt.CanonicalAll b
  | .ifElse _ c s none => c.Canonical ∧ s.isStatement ∧ s.Canonical
  | .ifElse _ c s (some t) =>
    c.Canonical ∧ s.isStatement ∧ s.Canonical ∧ s.endsOpen = false ∧ t.isStatement ∧ t.Canonical
  | .whileLoop _ c s => c.Canonical ∧ s.isStatement ∧ s.Canonical
  | .function d => d.Canonical
  | .classDecl _ _ _ ms => FunctionDecl.CanonicalAll ms

def Stmt.CanonicalAll : List Stmt → Prop
  | [] => True
  | s :: ss => s.Canonical ∧ Stmt.CanonicalAll ss

def FunctionDecl.Canonical : FunctionDecl → Prop
  | .mk _ ps b _ => ps.length ≤ maxArity ∧ Stmt.CanonicalAll b

def FunctionDecl.CanonicalAll : List FunctionDecl → Prop
  | [] => True
  | d :: ds => d.Canonical ∧ FunctionDecl.CanonicalAll ds

end

/-- The first clause of a `for` loop, with its semicolon. -/
inductive Stmt.Initial : List TokenKind → Option Stmt → Prop where
  | none : Initial [.symbol .semicolon] none
  | var {t x e} : (∀ v ∈ e, Expr.Canonical v) → Initial (varTokens x e) (some (.var t x e))
  | expr {t e} : e.Canonical → Initial (e.tokens ++ [.symbol .semicolon]) (some (.expr t e))

/-- The tokens of the clauses of a `for` loop, the first of them being `w`. -/
def Stmt.forTokens (w : List TokenKind) (condition increment : Option Expr) : List TokenKind :=
  .keyword .for :: .symbol .leftParen :: (w ++ (Expr.optionTokens condition ++
    .symbol .semicolon :: (Expr.optionTokens increment ++ [.symbol .rightParen])))

mutual

/-- The words that a statement is written as. The flag says whether the word ends in a conditional
without an `else`, so that an `else` after it would belong to that. -/
inductive Stmt.Written : Bool → List TokenKind → Stmt → Prop where
  | expr {t e} : e.Canonical → Stmt.Written false (e.tokens ++ [.symbol .semicolon]) (.expr t e)
  | print {t e} : e.Canonical →
    Stmt.Written false (.keyword .print :: (e.tokens ++ [.symbol .semicolon])) (.print t e)
  | returning {t k e} : (∀ v ∈ e, Expr.Canonical v) →
    Stmt.Written false (.keyword .return :: (Expr.optionTokens e ++ [.symbol .semicolon]))
      (.returning t k e)
  | block {t w b} : Stmt.DeclaredAll w b →
    Stmt.Written false (.symbol .leftBrace :: (w ++ [.symbol .rightBrace])) (.block t b)
  | ifThen {t c o w s} : c.Canonical → Stmt.Written o w s →
    Stmt.Written true (Stmt.headTokens .if c ++ w) (.ifElse t c s none)
  | ifElse {t c v s o w n} : c.Canonical → Stmt.Written false v s → Stmt.Written o w n →
    Stmt.Written o (Stmt.headTokens .if c ++ (v ++ .keyword .else :: w)) (.ifElse t c s (some n))
  | whileLoop {t c o w s} : c.Canonical → Stmt.Written o w s →
    Stmt.Written o (Stmt.headTokens .while c ++ w) (.whileLoop t c s)
  | forLoop {t i c d v o w s} {p : Site} : Stmt.Initial v i → (∀ e ∈ c, Expr.Canonical e) →
    (∀ e ∈ d, Expr.Canonical e) → Stmt.Written o w s →
    Stmt.Written o (Stmt.forTokens v c d ++ w) (.forLoop t i (c.getD (.literal p (.bool true))) d s)

/-- The words that a declaration is written as. -/
inductive Stmt.Declared : List TokenKind → Stmt → Prop where
  | statement {o w s} : Stmt.Written o w s → Stmt.Declared w s
  | var {t x e} : (∀ v ∈ e, Expr.Canonical v) → Stmt.Declared (Stmt.varTokens x e) (.var t x e)
  | function {w d} : FunctionDecl.Written w d → Stmt.Declared (.keyword .fun :: w) (.function d)
  | classDecl {t x p w ms} : FunctionDecl.WrittenAll w ms →
    Stmt.Declared (Stmt.classTokens x p w) (.classDecl t x p ms)

/-- Declarations one after the other. -/
inductive Stmt.DeclaredAll : List TokenKind → List Stmt → Prop where
  | nil : Stmt.DeclaredAll [] []
  | cons {w s v ss} : Stmt.Declared w s → Stmt.DeclaredAll v ss →
      Stmt.DeclaredAll (w ++ v) (s :: ss)

inductive FunctionDecl.Written : List TokenKind → FunctionDecl → Prop where
  | mk {x ps w b t} : ps.length ≤ maxArity → Stmt.DeclaredAll w b →
    FunctionDecl.Written (FunctionDecl.tokensWith x ps w) (.mk x ps b t)

inductive FunctionDecl.WrittenAll : List TokenKind → List FunctionDecl → Prop where
  | nil : FunctionDecl.WrittenAll [] []
  | cons {w d v ds} : FunctionDecl.Written w d → FunctionDecl.WrittenAll v ds →
    FunctionDecl.WrittenAll (w ++ v) (d :: ds)

end

/-! ### Canonical trees are written as their tokens -/

mutual

theorem Stmt.written :
    (s : Stmt) → s.Canonical → s.isStatement = true → Stmt.Written s.endsOpen s.tokens s
  | .expr _ _, h, _ => .expr h
  | .print _ _, h, _ => .print h
  | .block _ b, h, _ => .block (Stmt.declaredAll b h)
  | .ifElse _ _ s none, h, _ => .ifThen h.1 (s.written h.2.2 h.2.1)
  | .ifElse _ c s (some t), ⟨hc, hs, hs', hopen, ht, ht'⟩, _ => by
    have hyes := s.written hs' hs
    rw [hopen] at hyes
    exact .ifElse hc hyes (t.written ht' ht)
  | .whileLoop _ _ s, h, _ => .whileLoop h.1 (s.written h.2.2 h.2.1)
  | .returning _ _ _, h, _ => .returning h

theorem Stmt.declared : (s : Stmt) → s.Canonical → Stmt.Declared s.tokens s
  | .expr t e, h => .statement (Stmt.written (.expr t e) h rfl)
  | .print t e, h => .statement (Stmt.written (.print t e) h rfl)
  | .var _ _ _, h => .var h
  | .block t b, h => .statement (.block (Stmt.declaredAll b h))
  | .ifElse t c s none, h => .statement (.ifThen h.1 (s.written h.2.2 h.2.1))
  | .ifElse t c s (some n), h => .statement (Stmt.written (.ifElse t c s (some n)) h rfl)
  | .whileLoop t c s, h => .statement (.whileLoop h.1 (s.written h.2.2 h.2.1))
  | .function d, h => .function (d.written h)
  | .classDecl _ _ _ ms, h => .classDecl (FunctionDecl.writtenAll ms h)
  | .returning t k e, h => .statement (Stmt.written (.returning t k e) h rfl)

theorem Stmt.declaredAll :
    (ss : List Stmt) → Stmt.CanonicalAll ss → Stmt.DeclaredAll (Stmt.tokensAll ss) ss
  | [], _ => .nil
  | s :: ss, h => .cons (s.declared h.1) (Stmt.declaredAll ss h.2)

theorem FunctionDecl.written : (d : FunctionDecl) → d.Canonical → FunctionDecl.Written d.tokens d
  | .mk _ _ b _, h => .mk h.1 (Stmt.declaredAll b h.2)

theorem FunctionDecl.writtenAll : (ds : List FunctionDecl) → FunctionDecl.CanonicalAll ds →
    FunctionDecl.WrittenAll (FunctionDecl.tokensAll ds) ds
  | [], _ => .nil
  | d :: ds, h => .cons (d.written h.1) (FunctionDecl.writtenAll ds h.2)

end

end Lox
