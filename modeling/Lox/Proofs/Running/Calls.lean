import Lox.Proofs.Running.Frames
import Lox.Proofs.Running.Unwinding
/-!
# How calls go

A call that is not refused enters a function, or makes an instance and enters the initializer of its
class. What is entered runs its body in a new frame, on exactly as many arguments as it has
parameters. When the body ends the call answers, and the caller goes on in the frame and at the
depth in which it was.
-/

namespace Lox

variable {α β : Type}

namespace Result

/-- Goes on with a result if there is one. -/
def andThen (r : Result α) (f : α → Run β) : Result β :=
  match r with
  | done a n => f a n
  | fault e n => fault e n
  | outOfFuel => outOfFuel

@[simp] theorem andThen_done (a : α) (n : Machine) (f : α → Run β) : (done a n).andThen f = f a n :=
  rfl

@[simp] theorem on_done (a : α) (n : Machine) (h : Machine → Machine) :
    (done a n).on h = done a (h n) := rfl

variable {r : Result α}

theorem andThen_eq_done {f : α → Run β} {b : β} {o : Machine} :
    r.andThen f = done b o ↔ ∃ a n, r = done a n ∧ f a n = done b o := by
  constructor
  · intro h
    cases r with
    | done a n => exact ⟨a, n, rfl, h⟩
    | fault | outOfFuel => cases h
  · rintro ⟨a, n, rfl, h⟩
    exact h

theorem on_eq_done {h : Machine → Machine} {a : α} {o : Machine} :
    r.on h = done a o ↔ ∃ n, r = done a n ∧ h n = o := by
  constructor
  · intro hr
    cases r with
    | done a n =>
      cases hr
      exact ⟨n, rfl, rfl⟩
    | fault | outOfFuel => cases hr
  · rintro ⟨n, rfl, rfl⟩
    rfl

end Result

theorem Run.bind_eq (x : Run α) (f : α → Run β) (m : Machine) : (x >>= f) m = (x m).andThen f := by
  change Run.bind x f m = _
  unfold Run.bind Result.andThen
  rfl

/-- What the end of a body gives to the caller of a function. -/
def Flow.value : Flow → Value
  | .returned v => v
  | .normal => .nil

/-- The machine in which the body of a closure runs. -/
def Machine.inBody (g : Machine) (c : Closure) (vs : List Value) : Machine :=
  { g with
    store := (g.store.addFrame ⟨Run.bindParameters c.decl.parameters vs, some c.scope⟩).2
    frame := g.store.frames.size }

/-- What a closure answers when its body has ended: an initializer answers with its instance. -/
def Closure.answer (c : Closure) (flow : Flow) : Run Value := do
  if c.isInitializer then
    Run.orFault (← Run.ask (·.store.getAt? c.scope 0 "this")) (.undefinedVariable "this")
      c.decl.name.span
  else
    pure flow.value

/-- What the caller gets when what it entered has answered: a class gives the instance that was
made, whatever its initializer answers. -/
def Value.handBack (callee : Value) (m : Machine) (v : Value) : Value :=
  match callee with
  | .cls _ => .object m.store.instances.size
  | _ => v

namespace Run

/-- `m`, calling a value, enters the closure `c` in the machine `g`. -/
inductive Enters (m : Machine) : Value → Closure → Machine → Prop where
  | function {i : FunctionId} {c : Closure} : m.store.functions[i]? = some c →
    Enters m (.function i) c { m with depth := m.depth + 1 }
  /-- A new instance is bound to the initializer of its class. -/
  | initializer {k : ClassId} {f : Closure} : m.store.method? k initializerName = some f →
    Enters m (.cls k) ((m.store.addInstance ⟨k, .empty⟩).2.bind f m.store.instances.size).1
      { m with
        store := ((m.store.addInstance ⟨k, .empty⟩).2.bind f m.store.instances.size).2
        depth := m.depth + 1 }

variable {exec : Stmt → Run Flow} {m g : Machine} {callee : Value} {c : Closure} {k : ClassId}
  {vs : List Value} {paren : Span}

private theorem invoke_eq (exec : Stmt → Run Flow) (c : Closure) (vs : List Value) (g : Machine) :
    invoke exec c vs g =
      ((sequence exec c.decl.body (g.inBody c vs)).on ({ · with frame := g.frame })).andThen
        c.answer := by
  have hinvoke : invoke exec c vs g =
      (inFrame g.store.frames.size (sequence exec c.decl.body) >>= c.answer)
        { g with store :=
          (g.store.addFrame ⟨bindParameters c.decl.parameters vs, some c.scope⟩).2 } := by
    rw [bind_eq]
    refine Eq.trans (b := Result.andThen _ fun flow => if c.isInitializer then _ else _) rfl ?_
    congr 1
    funext flow
    cases flow <;> rfl
  rw [hinvoke, bind_eq]
  rfl

/-- Making an instance does not change which methods there are. -/
theorem instantiate_eq (exec : Stmt → Run Flow) (k : ClassId) (vs : List Value) (m : Machine) :
    instantiate exec k vs m =
      (match m.store.method? k initializerName with
        | some f => do
          let b ← update (·.bind f m.store.instances.size)
          let _ ← invoke exec b vs
          pure (Value.object m.store.instances.size)
        | none => pure (Value.object m.store.instances.size))
      { m with store := (m.store.addInstance ⟨k, .empty⟩).2 } := by
  rw [← Store.method?_congr (s := m.store) (t := (m.store.addInstance ⟨k, .empty⟩).2) rfl]
  rfl

theorem Enters.arity (h : Enters m callee c g) :
    m.store.arity? callee = some c.decl.parameters.length := by
  cases h with
  | function hc => rw [Store.arity?, hc, Option.map_some]
  | initializer hf =>
    rw [Store.arity?, Store.classArity, hf]
    rfl

theorem Enters.enter (h : Enters m callee c g) (exec : Stmt → Run Flow) (vs : List Value) :
    enter exec callee vs { m with depth := m.depth + 1 } =
      (invoke exec c vs g).andThen fun v => pure (callee.handBack m v) := by
  cases h with
  | @function i c hc =>
    change (ask (·.store.functions[i]?) >>= _) { m with depth := m.depth + 1 } = _
    rw [bind_eq]
    change (match m.store.functions[i]? with
      | some c => invoke exec c vs
      | none => pure .nil) { m with depth := m.depth + 1 } = _
    rw [hc]
    dsimp only
    cases invoke exec c vs { m with depth := m.depth + 1 } <;> rfl
  | @initializer k f hf =>
    change instantiate exec k vs { m with depth := m.depth + 1 } = _
    rw [instantiate_eq]
    change (match m.store.method? k initializerName with
      | some f => _
      | none => _ : Run Value) _ = _
    rw [hf]
    rfl

/-- A value is called if it takes so many arguments and calls are not nested too deep already. -/
theorem call_eq {n : Nat} (h : m.store.arity? callee = some n) (exec : Stmt → Run Flow)
    (vs : List Value) (paren : Span) :
    call exec callee vs paren m =
      if vs.length ≠ n then .fault ⟨.wrongArity n vs.length, paren⟩ m
      else if m.maxDepth ≤ m.depth then .fault ⟨.stackOverflow, paren⟩ m
      else (enter exec callee vs { m with depth := m.depth + 1 }).on fun o =>
          { o with depth := o.depth - 1 } := by
  rw [call, bind_eq]
  change Result.andThen (.done (m.store.arity? callee) m) _ = _
  rw [Result.andThen_done, h]
  dsimp only
  split
  · rfl
  · change (if decide (m.maxDepth ≤ m.depth) = true then fault .stackOverflow paren
      else nested (enter exec callee vs)) m = _
    simp only [decide_eq_true_eq]
    split <;> rfl

/-- What is entered runs its body, and then the caller goes on in its own frame. -/
theorem Enters.call (h : Enters m callee c g) (exec : Stmt → Run Flow) (vs : List Value)
    (paren : Span) :
    call exec callee vs paren m =
      if vs.length ≠ c.decl.parameters.length then
        .fault ⟨.wrongArity c.decl.parameters.length vs.length, paren⟩ m
      else if m.maxDepth ≤ m.depth then .fault ⟨.stackOverflow, paren⟩ m
      else
        ((((sequence exec c.decl.body (g.inBody c vs)).on ({ · with frame := m.frame })).andThen
          c.answer).andThen
          fun v => pure (callee.handBack m v)).on fun o => { o with depth := o.depth - 1 } := by
  have hframe : g.frame = m.frame := by cases h <;> rfl
  rw [call_eq h.arity, h.enter, invoke_eq, hframe]

/-- The call of a class without initializer takes no arguments and makes an instance. -/
theorem call_of_no_initializer (hk : m.store.method? k initializerName = none)
    (exec : Stmt → Run Flow) (vs : List Value) (paren : Span) :
    call exec (.cls k) vs paren m =
      if vs.length ≠ 0 then .fault ⟨.wrongArity 0 vs.length, paren⟩ m
      else if m.maxDepth ≤ m.depth then .fault ⟨.stackOverflow, paren⟩ m
      else .done (.object m.store.instances.size)
          { m with store := (m.store.addInstance ⟨k, .empty⟩).2 } := by
  have harity : m.store.arity? (.cls k) = some 0 := by
    rw [Store.arity?, Store.classArity, hk]
  have henter : enter exec (.cls k) vs { m with depth := m.depth + 1 } =
      .done (.object m.store.instances.size)
        { m with store := (m.store.addInstance ⟨k, .empty⟩).2, depth := m.depth + 1 } := by
    change instantiate exec k vs { m with depth := m.depth + 1 } = _
    rw [instantiate_eq]
    change (match m.store.method? k initializerName with
      | some f => _
      | none => _ : Run Value) _ = _
    rw [hk]
    rfl
  rw [call_eq harity, henter]
  rfl

end Run

end Lox
