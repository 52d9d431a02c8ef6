import Lox.Store.Frames
import Lox.Text.Quoted
import Lox.Number.Layout
import Lox.Scope.Resolve
/-!
# Classes and instances

A method is looked for in a class and then in the classes it inherits from. A method taken from an
instance is bound to it: its body runs inside a frame of its own that holds `this`.
-/

namespace Lox.Store

/-- The method with the name, looking at no more than `n` classes from `c` upward. -/
def methodIn? (s : Store) (x : String) : Nat → ClassId → Option Closure
  | 0, _ => none
  | n + 1, c =>
    match s.classes[c]? with
    | none => none
    | some cls =>
      match cls.methods.find? x with
      | some m => some m
      | none => cls.superclass.bind (s.methodIn? x n)

/-- The method with the name in the class `c` or the nearest class above that has one. No chain of
classes is longer than their number. -/
def method? (s : Store) (c : ClassId) (x : String) : Option Closure :=
  s.methodIn? x s.classes.size c

/-- The method `m` with `this` bound to the instance `i`. -/
def bind (s : Store) (m : Closure) (i : InstanceId) : Closure × Store :=
  let (f, s) := s.addFrame ⟨Table.empty.insert "this" (.object i), some m.scope⟩
  ({ m with scope := f }, s)

/-- What a name means on an instance. -/
inductive Property where
  | field (v : Value)
  | method (m : Closure)

/-- The property of an instance with the name: a field, or else a method of its class. -/
def property? (s : Store) (i : InstanceId) (x : String) : Option Property :=
  match s.instances[i]? with
  | none => none
  | some inst =>
    match inst.fields.find? x with
    | some v => some (.field v)
    | none => (s.method? inst.cls x).map .method

/-- The method `m` bound to the instance `i`, as a new value. -/
def bindValue (s : Store) (m : Closure) (i : InstanceId) : Value × Store :=
  let (b, s) := s.bind m i
  s.addFunction b

def setField (s : Store) (i : InstanceId) (x : String) (v : Value) : Store :=
  { s with instances := s.instances.modify i fun inst =>
    { inst with fields := inst.fields.insert x v } }

/-- The number of arguments of a call of the class `c`. -/
def classArity (s : Store) (c : ClassId) : Nat :=
  match s.method? c initializerName with
  | some m => m.decl.parameters.length
  | none => 0

/-- The number of arguments that a value takes, if it can be called. -/
def arity? (s : Store) : Value → Option Nat
  | .function f => (s.functions[f]?).map (·.decl.parameters.length)
  | .cls c => some (s.classArity c)
  | .native n => (s.natives[n]?).map Native.arity
  | _ => none

def functionName (s : Store) (f : FunctionId) : String :=
  ((s.functions[f]?).map (·.decl.name.name)).getD ""

def className (s : Store) (c : ClassId) : String :=
  ((s.classes[c]?).map Class.name).getD ""

def instanceName (s : Store) (i : InstanceId) : String :=
  ((s.instances[i]?).map (s.className ·.cls)).getD ""

/-- A value as it is printed. -/
def text (s : Store) : Value → String
  | .nil => "nil"
  | .bool b => toString b
  | .number x => Number.printed.text x
  | .string t => t
  | .function f => "<fn " ++ s.functionName f ++ ">"
  | .cls c => s.className c
  | .native _ => "<native fn>"
  | .object i => s.instanceName i ++ " instance"

/-- A value as it is shown for inspection: strings are quoted. -/
def inspect (s : Store) : Value → String
  | .string t => Quoted.encode t
  | v => s.text v

end Lox.Store
