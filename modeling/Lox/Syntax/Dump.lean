import Lox.Syntax.Basic
import Lox.Number.Layout
import Lox.Text.Quoted
/-!
# Trees as text

A tree is shown as nested lists in parentheses, each beginning with what its node is. A program has
one such list a line for each of its statements. Numbers and spans of nodes are not shown.
-/

namespace Lox

namespace Dump

/-- A list in parentheses: its first word, then its members. -/
def node (first : String) (members : List String) : String :=
  "(" ++ " ".intercalate (first :: members) ++ ")"

end Dump

open Dump

def Literal.dump : Literal → String
  | nil => "nil"
  | bool b => toString b
  | number x => Number.plain.text x
  | string s => Quoted.encode s

mutual

def Expr.dump : Expr → String
  | .literal _ v => v.dump
  | .grouping _ e => node "group" [e.dump]
  | .unary _ op _ e => node op.text [e.dump]
  | .binary _ l op _ r => node op.text [l.dump, r.dump]
  | .logical _ l op r => node op.text [l.dump, r.dump]
  | .var _ x => x.name
  | .assign _ x e => node "=" [x.name, e.dump]
  | .call _ f _ es => node "call" (f.dump :: Expr.dumpAll es)
  | .get _ e x => node "." [e.dump, x.name]
  | .set _ e x v => node "set" [e.dump, x.name, v.dump]
  | .this _ => "this"
  | .super _ x => node "super" [x.name]

def Expr.dumpAll : List Expr → List String
  | [] => []
  | e :: es => e.dump :: Expr.dumpAll es

end

/-- What follows the first word of a class: its name and the name it inherits from. -/
def Superclass.dumpHead (name : Ident) : Option Superclass → String
  | none => name.name
  | some s => name.name ++ " < " ++ s.name.name

mutual

def Stmt.dump : Stmt → String
  | .expr _ e => node ";" [e.dump]
  | .print _ e => node "print" [e.dump]
  | .var _ x none => node "var" [x.name]
  | .var _ x (some e) => node "var" [x.name, e.dump]
  | .block _ b => node "block" (Stmt.dumpAll b)
  | .ifElse _ c s none => node "if" [c.dump, s.dump]
  | .ifElse _ c s (some t) => node "if" [c.dump, s.dump, t.dump]
  | .whileLoop _ c s => node "while" [c.dump, s.dump]
  | .function d => d.dump "fun"
  | .classDecl _ x s ms => node "class" (Superclass.dumpHead x s :: FunctionDecl.dumpAll ms)
  | .returning _ _ none => node "return" []
  | .returning _ _ (some e) => node "return" [e.dump]

def Stmt.dumpAll : List Stmt → List String
  | [] => []
  | s :: ss => s.dump :: Stmt.dumpAll ss

/-- A function or a method, as the first word `first` says. -/
def FunctionDecl.dump (first : String) : FunctionDecl → String
  | .mk x ps b _ =>
    node first (x.name :: ("(" ++ " ".intercalate (ps.map Ident.name) ++ ")") :: Stmt.dumpAll b)

def FunctionDecl.dumpAll : List FunctionDecl → List String
  | [] => []
  | d :: ds => d.dump "method" :: FunctionDecl.dumpAll ds

end

def Program.dump (p : Program) : String := "\n".intercalate (Stmt.dumpAll p.body)

end Lox
