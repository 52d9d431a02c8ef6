import Lox.Syntax.Basic
import Lox.Scope.Table
/-!
# Values and the store

Functions, classes and instances are known by addresses in a store, which also holds the frames of
variables. Two such values are equal when they have the same address. The store only grows: frames,
functions and classes refer to what was there before them, and nothing is taken away.
-/

namespace Lox

abbrev FrameId := Nat
abbrev FunctionId := Nat
abbrev ClassId := Nat
abbrev NativeId := Nat
abbrev InstanceId := Nat

inductive Value where
  | nil
  | bool (b : Bool)
  | number (x : Float)
  | string (s : String)
  | function (id : FunctionId)
  | cls (id : ClassId)
  | native (id : NativeId)
  | object (id : InstanceId)

namespace Value

/-- All values are true but `nil` and `false`. -/
def isTruthy : Value → Bool
  | nil => false
  | bool b => b
  | _ => true

/-- Values of different kinds differ. Numbers are compared as doubles, so zero equals its negative
and what is not a number differs from itself. -/
def equal : Value → Value → Bool
  | nil, nil => true
  | bool a, bool b => a == b
  | number x, number y => x == y
  | string s, string t => s == t
  | function i, function j => i == j
  | cls i, cls j => i == j
  | native i, native j => i == j
  | object i, object j => i == j
  | _, _ => false

def ofLiteral : Literal → Value
  | .nil => nil
  | .bool b => bool b
  | .number x => number x
  | .string s => string s

def kindName : Value → String
  | nil => "nil"
  | bool _ => "boolean"
  | number _ => "number"
  | string _ => "string"
  | cls _ => "class"
  | function _ | native _ => "function"
  | object _ => "instance"

end Value

/-- The variables of one scope, and the frame of the scope around it. -/
structure Frame where
  bindings : Table Value
  enclosing : Option FrameId

/-- A function with the frame it was declared in. -/
structure Closure where
  decl : FunctionDecl
  scope : FrameId
  isInitializer : Bool

structure Class where
  name : String
  superclass : Option ClassId
  methods : Table Closure

/-- A function that is not written in the language. Each call answers with a
reading of the clock. -/
structure Native where
  name : String
  arity : Nat

structure Instance where
  cls : ClassId
  fields : Table Value

structure Store where
  frames : Array Frame
  functions : Array Closure
  classes : Array Class
  natives : Array Native
  instances : Array Instance

namespace Store

def empty : Store := ⟨#[], #[], #[], #[], #[]⟩

def addFrame (s : Store) (f : Frame) : FrameId × Store :=
  (s.frames.size, { s with frames := s.frames.push f })

def addFunction (s : Store) (c : Closure) : Value × Store :=
  (.function s.functions.size, { s with functions := s.functions.push c })

def addClass (s : Store) (c : Class) : Value × Store :=
  (.cls s.classes.size, { s with classes := s.classes.push c })

def addNative (s : Store) (n : Native) : Value × Store :=
  (.native s.natives.size, { s with natives := s.natives.push n })

def addInstance (s : Store) (i : Instance) : InstanceId × Store :=
  (s.instances.size, { s with instances := s.instances.push i })

end Store

end Lox
