import Lox.Eval.Run
/-!
# Hosts

A host runs programs and may do more about them than the evaluator: it may keep a record of where
they get to, or ask for the time when they do. The evaluator for hosts is that of `Expr.eval` and
`Stmt.exec`, except that it leaves everything it does by itself to the host, and tells it which
node it has come to.
-/

namespace Lox

/-- What a running program gets to. -/
inductive Event where
  /-- An expression whose operands have been evaluated; the superclass of a
  declaration counts as one. -/
  | node (e : Expr)
  | print (span : Span)
  /-- The end of an initializer, which gives back its instance. -/
  | answer (c : Closure)

class Host (M : Type → Type) extends Monad M where
  /-- Runs something that the evaluator does without running anything else. -/
  lift {α : Type} (x : Run α) : M α
  /-- What `f` says about the machine, which stays as it is. -/
  ask {α : Type} (f : Machine → α) : M α
  note (e : Event) : M Unit
  /-- Runs `x` in the frame `f` and goes back to the current frame, however `x` ends. -/
  inFrame {α : Type} (f : FrameId) (x : M α) : M α
  /-- Runs `x` as a call: one level deeper, and back again however `x` ends. -/
  nested {α : Type} (x : M α) : M α
  /-- The fuel is used up. -/
  cut {α : Type} : M α
  fault {α : Type} (cause : FaultCause) (span : Span) : M α
  /-- The next reading of the clock. -/
  readClock : M Value
  /-- Runs `x` at a level of nesting, which only decides on which stack it is computed. -/
  atLevel {α : Type} (level : Nat) (x : Unit → M α) : M α

namespace Host

variable {M : Type → Type} [Host M] {α β : Type}

/-- The results of `f` on a list, in order. -/
def collect (f : α → M β) : List α → M (List β)
  | [] => pure []
  | a :: as => do
    let b ← f a
    let bs ← collect f as
    pure (b :: bs)

/-- Runs statements in order up to the first that returns. -/
def sequence (f : α → M Flow) : List α → M Flow
  | [] => pure .normal
  | a :: as => do
    match ← f a with
    | .normal => sequence f as
    | .returned v => pure (.returned v)

/-- Runs `body` as long as `test` holds and nothing is returned, no more than `n` times. -/
def loop (test : M Bool) (body : M Flow) : Nat → M Flow
  | 0 => cut
  | n + 1 => do
    if ← test then
      match ← body with
      | .normal => loop test body n
      | .returned v => pure (.returned v)
    else
      pure .normal

def classDecl (x : Ident) (parent : Option Superclass) (methods : List FunctionDecl) : M Unit := do
  lift (Run.define x.name .nil)
  let frame ← ask Machine.frame
  let cls ←
    match parent with
    | none => pure ⟨x.name, none, Run.methodTable frame methods⟩
    | some p => do
      note (.node (.var p.site p.name))
      let c ← lift (Run.superclassOf p)
      let f ← lift (Run.update (·.addFrame ⟨Table.empty.insert "super" (.cls c), some frame⟩))
      pure ⟨x.name, some c, Run.methodTable f methods⟩
  let v ← lift (Run.update (·.addClass cls))
  lift (Run.define x.name v)

def invoke (exec : Stmt → M Flow) (f : Closure) (arguments : List Value) : M Value := do
  let frame ← lift
    (Run.update (·.addFrame ⟨Run.bindParameters f.decl.parameters arguments, some f.scope⟩))
  let flow ← inFrame frame (sequence exec f.decl.body)
  if f.isInitializer then
    note (.answer f)
    lift do
      let this ← Run.ask (·.store.getAt? f.scope 0 "this")
      Run.orFault this (.undefinedVariable "this") f.decl.name.span
  else
    match flow with
    | .returned v => pure v
    | .normal => pure .nil

def instantiate (exec : Stmt → M Flow) (c : ClassId) (arguments : List Value) : M Value := do
  let i ← lift (Run.update (·.addInstance ⟨c, .empty⟩))
  match ← ask (·.store.method? c initializerName) with
  | some f =>
    let b ← lift (Run.update (·.bind f i))
    let _ ← invoke exec b arguments
    pure (.object i)
  | none => pure (.object i)

def enter (exec : Stmt → M Flow) (callee : Value) (arguments : List Value) : M Value :=
  match callee with
  | .function f => do
    match ← ask (·.store.functions[f]?) with
    | some c => invoke exec c arguments
    | none => pure .nil
  | .cls c => instantiate exec c arguments
  | _ => readClock

def call (exec : Stmt → M Flow) (callee : Value) (arguments : List Value) (paren : Span) :
    M Value := do
  match ← ask (·.store.arity? callee) with
  | none => fault .notCallable paren
  | some n =>
    if arguments.length ≠ n then fault (.wrongArity n arguments.length) paren
    else if ← ask (fun m => decide (m.maxDepth ≤ m.depth)) then fault .stackOverflow paren
    else nested (enter exec callee arguments)

end Host

open Host

variable {M : Type → Type} [Host M]

mutual

def Expr.evalOn : Nat → Expr → M Value
  | 0, _ => cut
  | fuel + 1, e => atLevel fuel fun _ =>
    match e with
    | .literal _ l => pure (.ofLiteral l)
    | .grouping _ e => Expr.evalOn fuel e
    | .unary s op opSpan e => do
      let v ← Expr.evalOn fuel e
      note (.node (.unary s op opSpan e))
      lift (Run.ofExcept (op.apply v) opSpan)
    | .binary s l op opSpan r => do
      let v ← Expr.evalOn fuel l
      let w ← Expr.evalOn fuel r
      note (.node (.binary s l op opSpan r))
      lift (Run.ofExcept (op.apply v w) opSpan)
    | .logical _ l op r => do
      let v ← Expr.evalOn fuel l
      if op.decides v then pure v else Expr.evalOn fuel r
    | .var s x => do
      note (.node (.var s x))
      lift (Run.lookUp s.id x.name x.span)
    | .assign s x e => do
      let v ← Expr.evalOn fuel e
      note (.node (.assign s x e))
      lift (Run.assign s.id x.name v x.span)
      pure v
    | .call s f paren es => do
      let callee ← Expr.evalOn fuel f
      let arguments ← collect (Expr.evalOn fuel) es
      note (.node (.call s f paren es))
      call (Stmt.execOn fuel) callee arguments paren
    | .get s e x => do
      let v ← Expr.evalOn fuel e
      note (.node (.get s e x))
      lift (Run.property v x)
    | .set s e x value => do
      let v ← Expr.evalOn fuel e
      note (.node (.set s e x value))
      match v with
      | .object i =>
        let v ← Expr.evalOn fuel value
        lift (Run.update fun s => ((), s.setField i x.name v))
        pure v
      | _ => fault .noFields x.span
    | .this s => do
      note (.node (.this s))
      lift (Run.lookUp s.id "this" s.span)
    | .super s x => do
      note (.node (.super s x))
      lift (Run.superMethod s x)

def Stmt.execOn : Nat → Stmt → M Flow
  | 0, _ => cut
  | fuel + 1, s => atLevel fuel fun _ =>
    match s with
    | .expr _ e => do
      let _ ← Expr.evalOn fuel e
      pure .normal
    | .print span e => do
      let v ← Expr.evalOn fuel e
      note (.print span)
      lift do Run.printLine (← Run.ask (·.store.text v)) span
      pure .normal
    | .var _ x none => do
      lift (Run.define x.name .nil)
      pure .normal
    | .var _ x (some e) => do
      let v ← Expr.evalOn fuel e
      lift (Run.define x.name v)
      pure .normal
    | .block _ b => do
      let current ← ask Machine.frame
      let frame ← lift (Run.update (·.addScope (some current)))
      inFrame frame (sequence (Stmt.execOn fuel) b)
    | .ifElse _ c yes no => do
      let v ← Expr.evalOn fuel c
      if v.isTruthy then Stmt.execOn fuel yes
      else
        match no with
        | some s => Stmt.execOn fuel s
        | none => pure .normal
    | .whileLoop _ c b => loop (do return (← Expr.evalOn fuel c).isTruthy) (Stmt.execOn fuel b) fuel
    | .function d => do
      lift (Run.functionDecl d)
      pure .normal
    | .classDecl _ x p ms => do
      classDecl x p ms
      pure .normal
    | .returning _ _ none => pure (.returned .nil)
    | .returning _ _ (some e) => do
      let v ← Expr.evalOn fuel e
      pure (.returned v)

end

/-- Runs a program. A return outside of any call ends it. -/
def interpretOn (fuel : Nat) (body : List Stmt) : M Unit := do
  let _ ← sequence (Stmt.execOn fuel) body
  pure ()

end Lox
