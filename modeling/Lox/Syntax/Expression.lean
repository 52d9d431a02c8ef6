import Lox.Syntax.Cursor
/-!
# Reading expressions

Expressions are read by precedence. The six levels of operators between two operands, from `or`
down to `*` and `/`, associate to the left and share one reader; assignment, above them, and the
unary operators, below them, associate to the right. The target of an assignment is read as an
expression and then checked.
-/

namespace Lox

/-- The levels of operators between two operands, the loosest first. -/
inductive Level where
  | or | and | equality | comparison | term | factor
deriving DecidableEq, Repr

inductive InfixOp where
  | logical (op : LogicalOp)
  | binary (op : BinaryOp)
deriving DecidableEq, Repr

namespace Level

/-- The level of the operands of a level, if it is not that of the unary operators. -/
def tighter? : Level → Option Level
  | or => some and
  | and => some equality
  | equality => some comparison
  | comparison => some term
  | term => some factor
  | factor => none

/-- The operator of this level that a token is. -/
def operator? : Level → TokenKind → Option InfixOp
  | or, .keyword .or => some (.logical .or)
  | and, .keyword .and => some (.logical .and)
  | equality, .symbol .eqEq => some (.binary .equal)
  | equality, .symbol .bangEq => some (.binary .notEqual)
  | comparison, .symbol .greater => some (.binary .greater)
  | comparison, .symbol .greaterEq => some (.binary .greaterEqual)
  | comparison, .symbol .less => some (.binary .less)
  | comparison, .symbol .lessEq => some (.binary .lessEqual)
  | term, .symbol .plus => some (.binary .add)
  | term, .symbol .minus => some (.binary .subtract)
  | factor, .symbol .star => some (.binary .multiply)
  | factor, .symbol .slash => some (.binary .divide)
  | _, _ => none

end Level

/-- The unary operator that a token is. -/
def UnaryOp.ofToken? : TokenKind → Option UnaryOp
  | .symbol .bang => some .not
  | .symbol .minus => some .negate
  | _ => none

/-- The literal that a token is. -/
def Literal.ofToken? : TokenKind → Option Literal
  | .keyword .false => some (.bool false)
  | .keyword .true => some (.bool true)
  | .keyword .nil => some .nil
  | .number x => some (.number x)
  | .string s => some (.string s)
  | _ => none

namespace Reader

/-- The node of `left op right`. -/
def infixNode (left : Expr) (op : InfixOp) (opSpan : Span) (right : Expr) : Reader Expr := do
  let s ← site (left.span.merge right.span)
  match op with
  | .logical o => pure (.logical s left o right)
  | .binary o => pure (.binary s left o opSpan right)

/-- The node of `target = value`. A target that is no variable and no property is reported, and
stands in place of the assignment. -/
def assignNode (target : Expr) (eqSpan : Span) (value : Expr) : Reader Expr :=
  let span := target.span.merge value.span
  match target with
  | .var _ x => do pure (.assign (← site span) x value)
  | .get _ object x => do pure (.set (← site span) object x value)
  | _ => do
    change (·.reportAt .invalidAssignmentTarget eqSpan)
    pure target

mutual

/-- An assignment, or an expression of the loosest level. -/
def assignment : Nat → Reader Expr
  | 0 => fail
  | fuel + 1 => do
    let target ← level fuel .or
    if ← eat .eq then
      let eqSpan ← previous
      let value ← assignment fuel
      assignNode target eqSpan value
    else
      pure target

/-- Operands of a level with operators of that level between them. -/
def level : Nat → Level → Reader Expr
  | 0, _ => fail
  | fuel + 1, l => do
    let left ← operand fuel l
    moreOperands fuel l left

/-- What follows the operand `left`. -/
def moreOperands : Nat → Level → Expr → Reader Expr
  | 0, _, _ => fail
  | fuel + 1, l, left => do
    match l.operator? (← ask Cursor.kind) with
    | none => pure left
    | some op =>
      let opSpan ← advance
      let right ← operand fuel l
      let node ← infixNode left op opSpan right
      moreOperands fuel l node

/-- An operand of a level. -/
def operand : Nat → Level → Reader Expr
  | 0, _ => fail
  | fuel + 1, l =>
    match l.tighter? with
    | some t => level fuel t
    | none => unary fuel

def unary : Nat → Reader Expr
  | 0 => fail
  | fuel + 1 => do
    match UnaryOp.ofToken? (← ask Cursor.kind) with
    | none => do
      let callee ← primary fuel
      calls fuel callee
    | some op =>
      let opSpan ← advance
      let e ← unary fuel
      let s ← site (opSpan.merge e.span)
      pure (.unary s op opSpan e)

/-- The calls and property accesses that follow the expression `e`. -/
def calls : Nat → Expr → Reader Expr
  | 0, _ => fail
  | fuel + 1, e => do
    if ← eat .leftParen then
      let es ← if ← isSymbol .rightParen then pure [] else arguments fuel 0
      let paren ← expect .rightParen "after arguments"
      let s ← site (e.span.merge paren)
      calls fuel (.call s e paren es)
    else if ← eat .dot then
      let x ← name "property name after '.'"
      let s ← site (e.span.merge x.span)
      calls fuel (.get s e x)
    else
      pure e

/-- One argument and those that follow it, after `count` others. -/
def arguments : Nat → Nat → Reader (List Expr)
  | 0, _ => fail
  | fuel + 1, count => do
    if maxArity ≤ count then report .tooManyArguments
    let e ← assignment fuel
    if ← eat .comma then
      let es ← arguments fuel (count + 1)
      pure (e :: es)
    else
      pure [e]

def primary : Nat → Reader Expr
  | 0 => fail
  | fuel + 1 => do
    let start ← here
    let kind ← ask Cursor.kind
    match kind with
    | .keyword .this => do
      let _ ← advance
      pure (.this (← site start))
    | .identifier x => do
      let _ ← advance
      pure (.var (← site start) ⟨x, start⟩)
    | .keyword .super => do
      let _ ← advance
      let _ ← expect .dot "after 'super'"
      let x ← name "superclass method name"
      pure (.super (← site (start.merge x.span)) x)
    | .symbol .leftParen => do
      let _ ← advance
      let e ← assignment fuel
      let paren ← expect .rightParen "after expression"
      pure (.grouping (← site (start.merge paren)) e)
    | _ =>
      match Literal.ofToken? kind with
      | some v => do
        let _ ← advance
        pure (.literal (← site start) v)
      | none => do
        report .expectedExpression
        fail

end

/-- Fuel that is enough for a cursor: no reader of expressions goes more than sixteen steps deep
without reading a token. -/
def expressionFuel (c : Cursor) : Nat := 16 * (c.rest.length + 1)

def expression : Reader Expr := fun c => assignment (expressionFuel c) c

end Reader

end Lox
