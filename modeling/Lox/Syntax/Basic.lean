import Lox.Source.Span
/-!
# Syntax trees

Programs as trees. Every node has a span, and every expression has a number besides: it tells apart
expressions that are alike but stand at different places, so that facts about an expression can be
kept in a table. There is no node for a `for` loop, which is an abbreviation of other statements.
-/

namespace Lox

/-- A name as it stands in a text. -/
structure Ident where
  name : String
  span : Span
deriving DecidableEq, Repr

/-- The number of an expression and the span it covers. -/
structure Site where
  id : Nat
  span : Span
deriving DecidableEq, Repr

inductive Literal where
  | nil
  | bool (value : Bool)
  | number (value : Float)
  | string (value : String)

inductive UnaryOp where
  | negate
  | not
deriving DecidableEq, Repr

def UnaryOp.text : UnaryOp → String
  | negate => "-"
  | not => "!"

inductive BinaryOp where
  | add | subtract | multiply | divide
  | equal | notEqual | less | lessEqual | greater | greaterEqual
deriving DecidableEq, Repr

def BinaryOp.text : BinaryOp → String
  | add => "+"
  | subtract => "-"
  | multiply => "*"
  | divide => "/"
  | equal => "=="
  | notEqual => "!="
  | less => "<"
  | lessEqual => "<="
  | greater => ">"
  | greaterEqual => ">="

inductive LogicalOp where
  | and
  | or
deriving DecidableEq, Repr

def LogicalOp.text : LogicalOp → String
  | and => "and"
  | or => "or"

inductive Expr where
  | literal (site : Site) (value : Literal)
  | grouping (site : Site) (inner : Expr)
  | unary (site : Site) (op : UnaryOp) (opSpan : Span) (operand : Expr)
  | binary (site : Site) (left : Expr) (op : BinaryOp) (opSpan : Span) (right : Expr)
  | logical (site : Site) (left : Expr) (op : LogicalOp) (right : Expr)
  | var (site : Site) (name : Ident)
  | assign (site : Site) (name : Ident) (value : Expr)
  /-- A call; `paren` is the span of the closing parenthesis, where its faults are reported. -/
  | call (site : Site) (callee : Expr) (paren : Span) (arguments : List Expr)
  | get (site : Site) (object : Expr) (name : Ident)
  | set (site : Site) (object : Expr) (name : Ident) (value : Expr)
  | this (site : Site)
  | super (site : Site) (method : Ident)

def Expr.site : Expr → Site
  | literal s _ | grouping s _ | unary s _ _ _ | binary s _ _ _ _ | logical s _ _ _ | var s _
  | assign s _ _ | call s _ _ _ | get s _ _ | set s _ _ _ | this s | super s _ => s

def Expr.span (e : Expr) : Span := e.site.span

/-- The superclass of a class declaration is a variable. -/
structure Superclass where
  site : Site
  name : Ident
deriving DecidableEq, Repr

mutual

inductive Stmt where
  | expr (span : Span) (value : Expr)
  | print (span : Span) (value : Expr)
  | var (span : Span) (name : Ident) (initial : Option Expr)
  | block (span : Span) (body : List Stmt)
  | ifElse (span : Span) (condition : Expr) (yes : Stmt) (no : Option Stmt)
  | whileLoop (span : Span) (condition : Expr) (body : Stmt)
  | function (decl : FunctionDecl)
  | classDecl (span : Span) (name : Ident) (superclass : Option Superclass)
      (methods : List FunctionDecl)
  /-- A return; `keyword` is the span of its first word, where its errors are reported. -/
  | returning (span : Span) (keyword : Span) (value : Option Expr)

/-- A named function or method. -/
inductive FunctionDecl where
  | mk (name : Ident) (parameters : List Ident) (body : List Stmt) (span : Span)

end

namespace FunctionDecl

def name : FunctionDecl → Ident
  | mk n _ _ _ => n

def parameters : FunctionDecl → List Ident
  | mk _ ps _ _ => ps

def body : FunctionDecl → List Stmt
  | mk _ _ b _ => b

def span : FunctionDecl → Span
  | mk _ _ _ s => s

end FunctionDecl

def Stmt.span : Stmt → Span
  | expr s _ | print s _ | var s _ _ | block s _ | ifElse s _ _ _ | whileLoop s _ _
  | classDecl s _ _ _ | returning s _ _ => s
  | function d => d.span

/-- A program is a list of statements. -/
structure Program where
  body : List Stmt
  span : Span

end Lox
