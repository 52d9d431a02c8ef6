import Lox.Eval.Machine
/-!
# Running programs

Expressions, statements and calls, with fuel that bounds how deep their running nests and how often
a loop goes round. What runs to an end does so in the same way with any greater amount of fuel.
Operands and arguments are evaluated from left to right; an assignment to a property first evaluates
the object, then checks that it is an instance, then evaluates the value.
-/

namespace Lox

open Run

def UnaryOp.apply (op : UnaryOp) (v : Value) : Except FaultCause Value :=
  match op, v with
  | .not, v => .ok (.bool !v.isTruthy)
  | .negate, .number x => .ok (.number (-x))
  | .negate, _ => .error .operandNotNumber

def BinaryOp.apply (op : BinaryOp) (v w : Value) : Except FaultCause Value :=
  match op, v, w with
  | .equal, v, w => .ok (.bool (v.equal w))
  | .notEqual, v, w => .ok (.bool !v.equal w)
  | .add, .number x, .number y => .ok (.number (x + y))
  | .add, .string s, .string t => .ok (.string (s ++ t))
  | .add, _, _ => .error .operandsNotAddable
  | .subtract, .number x, .number y => .ok (.number (x - y))
  | .multiply, .number x, .number y => .ok (.number (x * y))
  | .divide, .number x, .number y => .ok (.number (x / y))
  | .less, .number x, .number y => .ok (.bool (x < y))
  | .lessEqual, .number x, .number y => .ok (.bool (x ≤ y))
  | .greater, .number x, .number y => .ok (.bool (y < x))
  | .greaterEqual, .number x, .number y => .ok (.bool (y ≤ x))
  | _, _, _ => .error .operandsNotNumbers

/-- Whether the left operand alone decides a logical expression. -/
def LogicalOp.decides (op : LogicalOp) (v : Value) : Bool :=
  match op with
  | .or => v.isTruthy
  | .and => !v.isTruthy

namespace Run

/-- What the frame `d` links out from the current one binds the name to. -/
@[inline] def valueAt (d : Nat) (x : String) (span : Span) : Run Value := fun m =>
  orFault (m.store.getAt? m.frame d x) (.undefinedVariable x) span m

/-- The value of the variable that the expression `id` names: at its distance, or else global. -/
def lookUp (id : Nat) (x : String) (span : Span) : Run Value := do
  match ← ask (·.distances.get? id) with
  | some d => valueAt d x span
  | none => orFault (← ask (·.store.get? globals x)) (.undefinedVariable x) span

/-- Gives the variable that the expression `id` names a new value. -/
def assign (id : Nat) (x : String) (v : Value) (span : Span) : Run Unit := fun m =>
  let found :=
    match m.distances.get? id with
    | some d => m.store.bindingAt? m.frame d x
    | none => m.store.nearest? globals x
  match found with
  | some f => .done () { m with store := m.store.define f x v }
  | none => .fault ⟨.undefinedVariable x, span⟩ m

/-- The method that `super` names, bound to `this`. The frame that holds `this` lies just inside the
one that holds `super`. -/
def superMethod (site : Site) (method : Ident) : Run Value := do
  match ← ask (·.distances.get? site.id) with
  | none => fault (.undefinedVariable "super") site.span
  | some d =>
    let parent ← valueAt d "super" site.span
    if d = 0 then fault (.undefinedVariable "this") site.span
    else
      let object ← valueAt (d - 1) "this" site.span
      match parent, object with
      | .cls c, .object i =>
        match ← ask (·.store.method? c method.name) with
        | some f => update (·.bindValue f i)
        | none => fault (.undefinedProperty method.name) method.span
      | _, _ => fault .superclassNotClass site.span

/-- The property of a value, which must be an instance. -/
def property (v : Value) (x : Ident) : Run Value :=
  match v with
  | .object i => do
    match ← ask (·.store.property? i x.name) with
    | some (.field v) => pure v
    | some (.method f) => update (·.bindValue f i)
    | none => fault (.undefinedProperty x.name) x.span
  | _ => fault .noProperties x.span

/-- The class that a class declaration inherits from. -/
def superclassOf (parent : Superclass) : Run ClassId := do
  match ← lookUp parent.site.id parent.name.name parent.name.span with
  | .cls c => pure c
  | _ => fault .superclassNotClass parent.site.span

/-- The methods of a class declared in the frame `f`. The last of several with one name counts. -/
def methodTable (f : FrameId) (methods : List FunctionDecl) : Table Closure :=
  methods.foldl (fun t d => t.insert d.name.name ⟨d, f, d.name.name = initializerName⟩) .empty

/-- Declares a class. Its name is bound before its superclass is evaluated; the methods of a class
that inherits are declared in a frame of their own, which holds `super`. -/
def classDecl (x : Ident) (parent : Option Superclass) (methods : List FunctionDecl) :
    Run Unit := do
  define x.name .nil
  let frame ← ask Machine.frame
  let cls ←
    match parent with
    | none => pure ⟨x.name, none, methodTable frame methods⟩
    | some p => do
      let c ← superclassOf p
      let f ← update (·.addFrame ⟨Table.empty.insert "super" (.cls c), some frame⟩)
      pure ⟨x.name, some c, methodTable f methods⟩
  let v ← update (·.addClass cls)
  define x.name v

/-- Declares a function in the current frame, which it closes over. -/
def functionDecl (d : FunctionDecl) : Run Unit := do
  let frame ← ask Machine.frame
  let v ← update (·.addFunction ⟨d, frame, false⟩)
  define d.name.name v

/-- The bindings of parameters to arguments. -/
def bindParameters (xs : List Ident) (vs : List Value) : Table Value :=
  (xs.zip vs).foldl (fun t (x, v) => t.insert x.name v) .empty

/-- Runs the body of a function in a new frame. An initializer gives back its instance, whatever its
body returned. -/
@[specialize] def invoke (exec : Stmt → Run Flow) (f : Closure) (arguments : List Value) :
    Run Value := do
  let frame ← update (·.addFrame ⟨bindParameters f.decl.parameters arguments, some f.scope⟩)
  let flow ← inFrame frame (sequence exec f.decl.body)
  if f.isInitializer then
    orFault (← ask (·.store.getAt? f.scope 0 "this")) (.undefinedVariable "this") f.decl.name.span
  else
    match flow with
    | .returned v => pure v
    | .normal => pure .nil

/-- Makes an instance and runs the initializer of its class, if there is one. -/
@[specialize] def instantiate (exec : Stmt → Run Flow) (c : ClassId) (arguments : List Value) :
    Run Value := do
  let i ← update (·.addInstance ⟨c, .empty⟩)
  match ← ask (·.store.method? c initializerName) with
  | some f =>
    let b ← update (·.bind f i)
    let _ ← invoke exec b arguments
    pure (.object i)
  | none => pure (.object i)

/-- Runs a callable value on as many arguments as it takes. -/
@[specialize] def enter (exec : Stmt → Run Flow) (callee : Value) (arguments : List Value) :
    Run Value :=
  match callee with
  | .function f => do
    match ← ask (·.store.functions[f]?) with
    | some c => invoke exec c arguments
    | none => pure .nil
  | .cls c => instantiate exec c arguments
  | _ => readClock

/-- Calls a value: it must be callable, the arguments must be as many as it takes, and the call must
not nest too deep. -/
@[specialize] def call (exec : Stmt → Run Flow) (callee : Value) (arguments : List Value)
    (paren : Span) : Run Value := do
  match ← ask (·.store.arity? callee) with
  | none => fault .notCallable paren
  | some n =>
    if arguments.length ≠ n then fault (.wrongArity n arguments.length) paren
    else if ← ask (fun m => decide (m.maxDepth ≤ m.depth)) then fault .stackOverflow paren
    else nested (enter exec callee arguments)

end Run

mutual

def Expr.eval : Nat → Expr → Run Value
  | 0, _ => outOfFuel
  | fuel + 1, e => atLevel fuel <|
    match e with
    | .literal _ l => pure (.ofLiteral l)
    | .grouping _ e => Expr.eval fuel e
    | .unary _ op opSpan e => do
      let v ← Expr.eval fuel e
      ofExcept (op.apply v) opSpan
    | .binary _ l op opSpan r => do
      let v ← Expr.eval fuel l
      let w ← Expr.eval fuel r
      ofExcept (op.apply v w) opSpan
    | .logical _ l op r => do
      let v ← Expr.eval fuel l
      if op.decides v then pure v else Expr.eval fuel r
    | .var s x => lookUp s.id x.name x.span
    | .assign s x e => do
      let v ← Expr.eval fuel e
      assign s.id x.name v x.span
      pure v
    | .call _ f paren es => do
      let callee ← Expr.eval fuel f
      let arguments ← collect (Expr.eval fuel) es
      call (Stmt.exec fuel) callee arguments paren
    | .get _ e x => do
      let v ← Expr.eval fuel e
      property v x
    | .set _ e x value => do
      match ← Expr.eval fuel e with
      | .object i =>
        let v ← Expr.eval fuel value
        update fun s => ((), s.setField i x.name v)
        pure v
      | _ => fault .noFields x.span
    | .this s => lookUp s.id "this" s.span
    | .super s x => superMethod s x

def Stmt.exec : Nat → Stmt → Run Flow
  | 0, _ => outOfFuel
  | fuel + 1, s => atLevel fuel <|
    match s with
    | .expr _ e => do
      let _ ← Expr.eval fuel e
      pure .normal
    | .print span e => do
      let v ← Expr.eval fuel e
      printLine (← ask (·.store.text v)) span
      pure .normal
    | .var _ x none => do
      define x.name .nil
      pure .normal
    | .var _ x (some e) => do
      let v ← Expr.eval fuel e
      define x.name v
      pure .normal
    | .block _ b => do
      let current ← ask Machine.frame
      let frame ← update (·.addScope (some current))
      inFrame frame (sequence (Stmt.exec fuel) b)
    | .ifElse _ c yes no => do
      let v ← Expr.eval fuel c
      if v.isTruthy then Stmt.exec fuel yes
      else
        match no with
        | some s => Stmt.exec fuel s
        | none => pure .normal
    | .whileLoop _ c b => loop (Value.isTruthy <$> Expr.eval fuel c) (Stmt.exec fuel b) fuel
    | .function d => do
      functionDecl d
      pure .normal
    | .classDecl _ x p ms => do
      classDecl x p ms
      pure .normal
    | .returning _ _ none => pure (.returned .nil)
    | .returning _ _ (some e) => do
      let v ← Expr.eval fuel e
      pure (.returned v)

end

/-- Runs a program. A return outside of any call ends it. -/
def interpret (fuel : Nat) (body : List Stmt) : Run Unit := do
  let _ ← sequence (Stmt.exec fuel) body
  pure ()

end Lox
