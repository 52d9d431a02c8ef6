import Lox.Eval.Run
import Lox.Proofs.Running.Process
/-!
# Lexical scoping

An interpreter that binds names where they stand in the text. It resolves nothing beforehand and has
no frames: every local variable is a cell, and what runs at a place of the text has a table of the
cells of the local variables that can be seen there. A declaration adds a new cell to the table for
the statements after it; a function keeps the table of the place of its declaration. Tables never
change. A name that is not in the table is that of a global variable.
-/

namespace Lox.Lexical

abbrev Cell := Nat

/-- The cells of the local variables that can be seen at a place. -/
abbrev Locals := Table Cell

/-- A function with the local variables that can be seen at its declaration. -/
structure Function where
  decl : FunctionDecl
  locals : Locals
  isInitializer : Bool

/-- A class with the local variables that its methods can see. -/
structure Class where
  name : String
  superclass : Option ClassId
  methods : Table FunctionDecl
  locals : Locals

/-- The state of a running program. -/
structure World where
  cells : Array Value
  globals : Table Value
  functions : Array Function
  classes : Array Class
  natives : Array Native
  instances : Array Instance
  depth : Nat
  maxDepth : Nat
  output : Output
  clock : Nat → Float
  readings : Nat

namespace World

/-- A world in which nothing has run yet. Its one global variable is `clock`. -/
def initial (output : Output) (maxDepth : Nat) (clock : Nat → Float) : World where
  cells := #[]
  globals := Table.empty.insert "clock" (.native 0)
  functions := #[]
  classes := #[]
  natives := #[⟨"clock", 0⟩]
  instances := #[]
  depth := 0
  maxDepth := maxDepth
  output := output
  clock := clock
  readings := 0

/-- A new variable. -/
def fresh (w : World) (v : Value) : Cell × World :=
  (w.cells.size, { w with cells := w.cells.push v })

def setGlobal (w : World) (x : String) (v : Value) : World :=
  { w with globals := w.globals.insert x v }

/-- What a name means where the local variables are `l`. -/
def valueOf? (w : World) (l : Locals) (x : String) : Option Value :=
  match l.find? x with
  | some c => w.cells[c]?
  | none => w.globals.find? x

/-- Gives the variable that a name means a new value, if there is one. -/
def set? (w : World) (l : Locals) (x : String) (v : Value) : Option World :=
  match l.find? x with
  | some c => some { w with cells := w.cells.setIfInBounds c v }
  | none => if w.globals.contains x then some (w.setGlobal x v) else none

def addFunction (w : World) (f : Function) : Value × World :=
  (.function w.functions.size, { w with functions := w.functions.push f })

def addClass (w : World) (c : Class) : Value × World :=
  (.cls w.classes.size, { w with classes := w.classes.push c })

def addInstance (w : World) (i : Instance) : InstanceId × World :=
  (w.instances.size, { w with instances := w.instances.push i })

def setField (w : World) (i : InstanceId) (x : String) (v : Value) : World :=
  { w with instances := w.instances.modify i fun inst =>
    { inst with fields := inst.fields.insert x v } }

/-! ### Classes and instances -/

/-- The method with the name, looking at no more than `n` classes from `c` upward. -/
def methodIn? (w : World) (x : String) : Nat → ClassId → Option Function
  | 0, _ => none
  | n + 1, c =>
    match w.classes[c]? with
    | none => none
    | some cls =>
      match cls.methods.find? x with
      | some d => some ⟨d, cls.locals, d.name.name = initializerName⟩
      | none => cls.superclass.bind (w.methodIn? x n)

def method? (w : World) (c : ClassId) (x : String) : Option Function :=
  w.methodIn? x w.classes.size c

/-- The property of an instance with the name: a field, or else a method of its class. -/
def property? (w : World) (i : InstanceId) (x : String) : Option (Value ⊕ Function) :=
  match w.instances[i]? with
  | none => none
  | some inst =>
    match inst.fields.find? x with
    | some v => some (.inl v)
    | none => (w.method? inst.cls x).map .inr

/-- The method `f`, which can see the instance `i` as `this`. -/
def bind (w : World) (f : Function) (i : InstanceId) : Function × World :=
  let (c, w) := w.fresh (.object i)
  ({ f with locals := f.locals.insert "this" c }, w)

def bindValue (w : World) (f : Function) (i : InstanceId) : Value × World :=
  let (b, w) := w.bind f i
  w.addFunction b

def classArity (w : World) (c : ClassId) : Nat :=
  match w.method? c initializerName with
  | some f => f.decl.parameters.length
  | none => 0

def arity? (w : World) : Value → Option Nat
  | .function f => (w.functions[f]?).map (·.decl.parameters.length)
  | .cls c => some (w.classArity c)
  | .native n => (w.natives[n]?).map Native.arity
  | _ => none

def functionName (w : World) (f : FunctionId) : String :=
  ((w.functions[f]?).map (·.decl.name.name)).getD ""

def className (w : World) (c : ClassId) : String :=
  ((w.classes[c]?).map Class.name).getD ""

def instanceName (w : World) (i : InstanceId) : String :=
  ((w.instances[i]?).map (w.className ·.cls)).getD ""

/-- A value as it is printed. -/
def text (w : World) : Value → String
  | .nil => "nil"
  | .bool b => toString b
  | .number x => Number.printed.text x
  | .string t => t
  | .function f => "<fn " ++ w.functionName f ++ ">"
  | .cls c => w.className c
  | .native _ => "<native fn>"
  | .object i => w.instanceName i ++ " instance"

end World

/-! ### Variables -/

open Process

/-- Where a statement stands: outside of all scopes, where declarations are global,
or inside of one. -/
inductive Place where
  | top
  | within (l : Locals)

def Place.locals : Place → Locals
  | top => .empty
  | within l => l

/-- How a statement ends: its place goes on to the next one, or it returns a value. -/
inductive Next where
  | onward (p : Place)
  | returned (v : Value)

def read (l : Locals) (x : String) (span : Span) : Process World Value := do
  orFault (← ask (·.valueOf? l x)) (.undefinedVariable x) span

def assign (l : Locals) (x : String) (v : Value) (span : Span) : Process World Unit := fun w =>
  match w.set? l x v with
  | some u => .done () u
  | none => .fault ⟨.undefinedVariable x, span⟩ w

/-- Declares a variable; the place that it gives is that of the statements after the declaration. -/
def declare (p : Place) (x : String) (v : Value) : Process World Place :=
  match p with
  | .top => change fun w => (.top, w.setGlobal x v)
  | .within l => do
    let c ← change (·.fresh v)
    pure (.within (l.insert x c))

/-! ### Functions and classes -/

/-- Declares a function, whose body can see the function itself. -/
def functionDecl (p : Place) (d : FunctionDecl) : Process World Place := do
  let p ← declare p d.name.name .nil
  let v ← change (·.addFunction ⟨d, p.locals, false⟩)
  assign p.locals d.name.name v d.name.span
  pure p

/-- The methods of a class. The last of several with one name counts. -/
def methodTable (methods : List FunctionDecl) : Table FunctionDecl :=
  methods.foldl (fun t d => t.insert d.name.name d) .empty

/-- The class that a class declaration inherits from. -/
def superclassOf (l : Locals) (parent : Superclass) : Process World ClassId := do
  match ← read l parent.name.name parent.name.span with
  | .cls c => pure c
  | _ => fault .superclassNotClass parent.site.span

/-- Declares a class, whose methods can see the class itself and, as `super`, the class
it inherits from. -/
def classDecl (p : Place) (x : Ident) (parent : Option Superclass) (methods : List FunctionDecl) :
    Process World Place := do
  let p ← declare p x.name .nil
  let cls ←
    match parent with
    | none => pure ⟨x.name, none, methodTable methods, p.locals⟩
    | some s => do
      let c ← superclassOf p.locals s
      let cell ← change (·.fresh (.cls c))
      pure ⟨x.name, some c, methodTable methods, p.locals.insert "super" cell⟩
  let v ← change (·.addClass cls)
  assign p.locals x.name v x.span
  pure p

/-- The method that `super` names, bound to `this`. -/
def superMethod (l : Locals) (site : Site) (method : Ident) : Process World Value := do
  let parent ← read l "super" site.span
  let object ← read l "this" site.span
  match parent, object with
  | .cls c, .object i =>
    match ← ask (·.method? c method.name) with
    | some f => change (·.bindValue f i)
    | none => fault (.undefinedProperty method.name) method.span
  | _, _ => fault .superclassNotClass site.span

/-- The property of a value, which must be an instance. -/
def property (v : Value) (x : Ident) : Process World Value :=
  match v with
  | .object i => do
    match ← ask (·.property? i x.name) with
    | some (.inl v) => pure v
    | some (.inr f) => change (·.bindValue f i)
    | none => fault (.undefinedProperty x.name) x.span
  | _ => fault .noProperties x.span

/-! ### Running -/

def printLine (s : String) (span : Span) : Process World Unit := fun w =>
  match w.output.write (s ++ "\n") with
  | (true, o) => .done () { w with output := o }
  | (false, o) => .fault ⟨.outputFull, span⟩ { w with output := o }

def readClock : Process World Value :=
  change fun w => (.number (w.clock w.readings), { w with readings := w.readings + 1 })

/-- Runs statements in order up to the first that returns, each at the place that the
one before it gives. -/
def sequence (exec : Place → Stmt → Process World Next) (p : Place) : List Stmt → Process World Next
  | [] => pure (.onward p)
  | s :: ss => do
    match ← exec p s with
    | .onward p => sequence exec p ss
    | .returned v => pure (.returned v)

/-- Runs `body` as long as `test` holds and nothing is returned. Nothing that it
declares is seen outside. -/
def loop (p : Place) (test : Process World Bool) (body : Process World Next) :
    Nat → Process World Next
  | 0 => cut
  | n + 1 => do
    if ← test then
      match ← body with
      | .onward _ => loop p test body n
      | .returned v => pure (.returned v)
    else
      pure (.onward p)

/-- The local variables of a function body: those of its declaration and its parameters. -/
def bindParameters (l : Locals) : List (Ident × Value) → Process World Locals
  | [] => pure l
  | (x, v) :: rest => do
    let c ← change (·.fresh v)
    bindParameters (l.insert x.name c) rest

/-- Runs the body of a function. An initializer gives back its instance, whatever
its body returned. -/
def invoke (exec : Place → Stmt → Process World Next) (f : Function) (arguments : List Value) :
    Process World Value := do
  let l ← bindParameters f.locals (f.decl.parameters.zip arguments)
  let next ← sequence exec (.within l) f.decl.body
  if f.isInitializer then read f.locals "this" f.decl.name.span
  else
    match next with
    | .returned v => pure v
    | .onward _ => pure .nil

def instantiate (exec : Place → Stmt → Process World Next) (c : ClassId) (arguments : List Value) :
    Process World Value := do
  let i ← change (·.addInstance ⟨c, .empty⟩)
  match ← ask (·.method? c initializerName) with
  | some f =>
    let b ← change (·.bind f i)
    let _ ← invoke exec b arguments
    pure (.object i)
  | none => pure (.object i)

def enter (exec : Place → Stmt → Process World Next) (callee : Value) (arguments : List Value) :
    Process World Value :=
  match callee with
  | .function f => do
    match ← ask (·.functions[f]?) with
    | some c => invoke exec c arguments
    | none => pure .nil
  | .cls c => instantiate exec c arguments
  | _ => readClock

def nested {α : Type} (x : Process World α) : Process World α :=
  around (fun w => { w with depth := w.depth + 1 }) (fun _ w => { w with depth := w.depth - 1 }) x

def call (exec : Place → Stmt → Process World Next) (callee : Value) (arguments : List Value)
    (paren : Span) : Process World Value := do
  match ← ask (·.arity? callee) with
  | none => fault .notCallable paren
  | some n =>
    if arguments.length ≠ n then fault (.wrongArity n arguments.length) paren
    else if ← ask (fun w => decide (w.maxDepth ≤ w.depth)) then fault .stackOverflow paren
    else nested (enter exec callee arguments)

end Lox.Lexical

namespace Lox

open Process Lexical

mutual

/-- The value of an expression where the local variables are `l`. -/
def Expr.evalIn : Nat → Locals → Expr → Process World Value
  | 0, _, _ => cut
  | _ + 1, _, .literal _ v => pure (.ofLiteral v)
  | fuel + 1, l, .grouping _ e => Expr.evalIn fuel l e
  | fuel + 1, l, .unary _ op t e => do
    let v ← Expr.evalIn fuel l e
    ofExcept (op.apply v) t
  | fuel + 1, l, .binary _ a op t b => do
    let v ← Expr.evalIn fuel l a
    let w ← Expr.evalIn fuel l b
    ofExcept (op.apply v w) t
  | fuel + 1, l, .logical _ a op b => do
    let v ← Expr.evalIn fuel l a
    if op.decides v then pure v else Expr.evalIn fuel l b
  | _ + 1, l, .var _ x => read l x.name x.span
  | fuel + 1, l, .assign _ x e => do
    let v ← Expr.evalIn fuel l e
    assign l x.name v x.span
    pure v
  | fuel + 1, l, .call _ f paren es => do
    let callee ← Expr.evalIn fuel l f
    let arguments ← collect (Expr.evalIn fuel l) es
    call (Stmt.execIn fuel) callee arguments paren
  | fuel + 1, l, .get _ e x => do
    let v ← Expr.evalIn fuel l e
    property v x
  | fuel + 1, l, .set _ e x value => do
    match ← Expr.evalIn fuel l e with
    | .object i =>
      let v ← Expr.evalIn fuel l value
      change fun w => ((), w.setField i x.name v)
      pure v
    | _ => fault .noFields x.span
  | _ + 1, l, .this s => read l "this" s.span
  | _ + 1, l, .super s x => superMethod l s x

/-- Runs a statement at a place. -/
def Stmt.execIn : Nat → Place → Stmt → Process World Next
  | 0, _, _ => cut
  | fuel + 1, p, .expr _ e => do
    let _ ← Expr.evalIn fuel p.locals e
    pure (.onward p)
  | fuel + 1, p, .print t e => do
    let v ← Expr.evalIn fuel p.locals e
    printLine (← ask (·.text v)) t
    pure (.onward p)
  | _ + 1, p, .var _ x none => do
    let p ← declare p x.name .nil
    pure (.onward p)
  | fuel + 1, p, .var _ x (some e) => do
    let v ← Expr.evalIn fuel p.locals e
    let p ← declare p x.name v
    pure (.onward p)
  | fuel + 1, p, .block _ b => do
    match ← sequence (Stmt.execIn fuel) (.within p.locals) b with
    | .onward _ => pure (.onward p)
    | .returned v => pure (.returned v)
  | fuel + 1, p, .ifElse _ c yes no => do
    let v ← Expr.evalIn fuel p.locals c
    if v.isTruthy then Stmt.execIn fuel p yes
    else
      match no with
      | some s => Stmt.execIn fuel p s
      | none => pure (.onward p)
  | fuel + 1, p, .whileLoop _ c b =>
    loop p (do return (← Expr.evalIn fuel p.locals c).isTruthy) (Stmt.execIn fuel p b) fuel
  | _ + 1, p, .function d => do
    let p ← functionDecl p d
    pure (.onward p)
  | _ + 1, p, .classDecl _ x s ms => do
    let p ← classDecl p x s ms
    pure (.onward p)
  | _ + 1, _, .returning _ _ none => pure (.returned .nil)
  | fuel + 1, p, .returning _ _ (some e) => do
    let v ← Expr.evalIn fuel p.locals e
    pure (.returned v)

end

/-- Runs a program in the world `w`. -/
def Lexical.interpret (fuel : Nat) (body : List Stmt) : Process World Unit := do
  let _ ← sequence (Stmt.execIn fuel) .top body
  pure ()

end Lox
