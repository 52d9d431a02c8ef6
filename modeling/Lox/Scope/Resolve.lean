import Lox.Syntax.Basic
import Lox.Scope.Table
import Lox.Scope.Distances
import Lox.Diagnostic.Basic
/-!
# Resolving names

One walk over a program, in the order of its text, finds the distance of every local variable and
the errors that can be seen without running the program. Global variables have no scope here: what
the open scopes do not hold is taken to be global.
-/

namespace Lox

inductive ScopeError where
  | alreadyDeclared
  | selfReferentialInitializer
  | returnOutsideFunction
  | returnValueFromInitializer
  | thisOutsideClass
  | superOutsideClass
  | superWithoutSuperclass
  | selfInheritance
deriving DecidableEq, Repr

instance : Reportable ScopeError where
  code
    | .alreadyDeclared => ⟨200⟩
    | .selfReferentialInitializer => ⟨201⟩
    | .returnOutsideFunction => ⟨202⟩
    | .returnValueFromInitializer => ⟨203⟩
    | .thisOutsideClass => ⟨204⟩
    | .superOutsideClass => ⟨205⟩
    | .superWithoutSuperclass => ⟨206⟩
    | .selfInheritance => ⟨207⟩
  message
    | .alreadyDeclared => "Already a variable with this name in this scope."
    | .selfReferentialInitializer => "Can't read local variable in its own initializer."
    | .returnOutsideFunction => "Can't return from top-level code."
    | .returnValueFromInitializer => "Can't return a value from an initializer."
    | .thisOutsideClass => "Can't use 'this' outside of a class."
    | .superOutsideClass => "Can't use 'super' outside of a class."
    | .superWithoutSuperclass => "Can't use 'super' in a class with no superclass."
    | .selfInheritance => "A class can't inherit from itself."

/-- The name of the method that initializes instances. -/
def initializerName : String := "init"

/-- The innermost function around a statement. -/
inductive FunctionKind where
  | none
  | function
  | initializer
  | method
deriving DecidableEq, Repr

/-- The innermost class around a statement. -/
inductive ClassKind where
  | none
  | plain
  | subclass
deriving DecidableEq, Repr

/-- The sort of function that a method with the name `x` is. -/
def FunctionKind.ofMethod (x : String) : FunctionKind :=
  if x = initializerName then .initializer else .method

/-- A scope says for each of its names whether it is defined; a name is declared
before it is defined. -/
abbrev Scope := Table Bool

/-- How far the walk has come. -/
structure Walk where
  /-- The open scopes, the innermost first. -/
  scopes : List Scope
  function : FunctionKind
  classKind : ClassKind
  distances : Distances
  errors : Array (Located ScopeError)

namespace Walk

def start : Walk := ⟨[], .none, .none, .empty, #[]⟩

def report (w : Walk) (e : ScopeError) (s : Span) : Walk :=
  { w with errors := w.errors.push ⟨e, s⟩ }

def reportIf (w : Walk) (b : Bool) (e : ScopeError) (s : Span) : Walk :=
  if b then w.report e s else w

def openScope (w : Walk) : Walk := { w with scopes := .empty :: w.scopes }

def closeScope (w : Walk) : Walk := { w with scopes := w.scopes.tail }

/-- Declares a name in the innermost scope, where it must be new. -/
def declare (w : Walk) (x : Ident) : Walk :=
  match w.scopes with
  | [] => w
  | s :: ss =>
    if s.contains x.name then w.report .alreadyDeclared x.span
    else { w with scopes := s.insert x.name false :: ss }

/-- Defines a name in the innermost scope. -/
def define (w : Walk) (x : String) : Walk :=
  match w.scopes with
  | [] => w
  | s :: ss => { w with scopes := s.insert x true :: ss }

/-- Whether the innermost scope holds the name as declared but not defined. -/
def isUndefined (w : Walk) (x : String) : Bool :=
  match w.scopes with
  | [] => false
  | s :: _ => s.find? x == some false

/-- Records the distance from the expression `id` to the nearest scope that holds the name. -/
def locate (w : Walk) (id : Nat) (x : String) : Walk :=
  match w.scopes.findIdx? (·.contains x) with
  | some d => { w with distances := w.distances.insert id d }
  | none => w

/-- A read of a variable, which must not stand in its own initializer. -/
def read (w : Walk) (site : Site) (x : Ident) : Walk :=
  (w.reportIf (w.isUndefined x.name) .selfReferentialInitializer x.span).locate site.id x.name

/-- A use of `this`; outside of a class it has no distance. -/
def useThis (w : Walk) (site : Site) : Walk :=
  if w.classKind = .none then w.report .thisOutsideClass site.span else w.locate site.id "this"

def useSuper (w : Walk) (site : Site) : Walk :=
  let w :=
    match w.classKind with
    | .none => w.report .superOutsideClass site.span
    | .plain => w.report .superWithoutSuperclass site.span
    | .subclass => w
  w.locate site.id "super"

end Walk

mutual

def Expr.resolve (w : Walk) : Expr → Walk
  | .literal _ _ => w
  | .grouping _ e => e.resolve w
  | .unary _ _ _ e => e.resolve w
  | .binary _ l _ _ r => r.resolve (l.resolve w)
  | .logical _ l _ r => r.resolve (l.resolve w)
  | .var s x => w.read s x
  | .assign s x e => (e.resolve w).locate s.id x.name
  | .call _ f _ es => Expr.resolveAll (f.resolve w) es
  | .get _ e _ => e.resolve w
  | .set _ e _ v => e.resolve (v.resolve w)
  | .this s => w.useThis s
  | .super s _ => w.useSuper s

def Expr.resolveAll (w : Walk) : List Expr → Walk
  | [] => w
  | e :: es => Expr.resolveAll (e.resolve w) es

end

namespace Walk

/-- The scope of parameters. -/
def declareAll (w : Walk) (xs : List Ident) : Walk :=
  xs.foldl (fun w x => (w.declare x).define x.name) w

/-- Enters a class: its name is declared, and the scopes that hold `super` and `this` are opened. -/
def enterClass (w : Walk) (x : Ident) (parent : Option Superclass) : Walk :=
  let w := ({ w with classKind := .plain }.declare x).define x.name
  let w :=
    match parent with
    | none => w
    | some p =>
      let w := w.reportIf (p.name.name == x.name) .selfInheritance p.name.span
      (({ w with classKind := .subclass }.read p.site p.name).openScope).define "super"
  w.openScope.define "this"

/-- Leaves a class that was entered from `before`. -/
def leaveClass (w before : Walk) (parent : Option Superclass) : Walk :=
  let w := w.closeScope
  let w := if parent.isSome then w.closeScope else w
  { w with classKind := before.classKind }

/-- The errors of a return, which must stand in a function and carry no value out
of an initializer. -/
def checkReturn (w : Walk) (keyword : Span) (hasValue : Bool) : Walk :=
  (w.reportIf (w.function = .none) .returnOutsideFunction keyword).reportIf
    (hasValue && w.function = .initializer) .returnValueFromInitializer keyword

end Walk

mutual

def Stmt.resolve (w : Walk) : Stmt → Walk
  | .expr _ e => e.resolve w
  | .print _ e => e.resolve w
  | .var _ x none => (w.declare x).define x.name
  | .var _ x (some e) => (e.resolve (w.declare x)).define x.name
  | .block _ b => (Stmt.resolveAll w.openScope b).closeScope
  | .ifElse _ c s none => s.resolve (c.resolve w)
  | .ifElse _ c s (some t) => t.resolve (s.resolve (c.resolve w))
  | .whileLoop _ c s => s.resolve (c.resolve w)
  | .function d => d.resolve ((w.declare d.name).define d.name.name) .function
  | .classDecl _ x p ms => (FunctionDecl.resolveMethods (w.enterClass x p) ms).leaveClass w p
  | .returning _ k none => w.checkReturn k false
  | .returning _ k (some e) => e.resolve (w.checkReturn k true)

def Stmt.resolveAll (w : Walk) : List Stmt → Walk
  | [] => w
  | s :: ss => Stmt.resolveAll (s.resolve w) ss

/-- A function body shares its scope with the parameters. -/
def FunctionDecl.resolve (w : Walk) : FunctionDecl → FunctionKind → Walk
  | .mk _ ps b _, kind =>
    let inner := { w with function := kind }.openScope.declareAll ps
    { (Stmt.resolveAll inner b).closeScope with function := w.function }

def FunctionDecl.resolveMethods (w : Walk) : List FunctionDecl → Walk
  | [] => w
  | d :: ds => FunctionDecl.resolveMethods (d.resolve w (.ofMethod d.name.name)) ds

end

/-- The distances in a program and its errors. -/
structure Resolved where
  distances : Distances
  errors : List (Located ScopeError)

def Resolved.ofStmts (body : List Stmt) : Resolved :=
  let w := Stmt.resolveAll .start body
  ⟨w.distances, w.errors.toList⟩

end Lox
