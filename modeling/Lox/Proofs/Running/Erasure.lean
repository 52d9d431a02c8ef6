import Lox.Proofs.Running.Indifferent
import Lox.Proofs.Running.Recorder
/-!
# Hosts add nothing to a run

A host is faithful if each thing that it does for the evaluator is what the evaluator does, once
what the host adds is left out. Then so is every program that it runs.
-/

namespace Lox

variable {α β : Type}

namespace Machine

/-- The machine with another clock. -/
def atClock (m : Machine) (c : Nat → Float) : Machine := { m with clock := c }

instance : Aside atClock := ⟨fun _ _ => rfl, fun _ _ => rfl, fun _ _ => rfl, fun _ _ _ => rfl⟩

end Machine

/-- `r` is the same whatever the clock says. -/
abbrev Run.Timeless (r : Run α) : Prop := r.Indifferent Machine.atClock

theorem Run.Timeless.printLine (s : String) (span : Span) : Timeless (Run.printLine s span) := by
  intro m c
  unfold Run.printLine
  rw [show (m.atClock c).output = m.output from rfl]
  cases m.output.write (s ++ "\n") with
  | mk b o => cases b <;> rfl

/-- Hosts that do what the evaluator does, where `Erases x r` says that `x` is `r` with
what the host adds. -/
class Faithful (M : Type → Type) [Host M] where
  Erases {α : Type} (x : M α) (r : Run α) : Prop
  erases_pure {α : Type} (a : α) : Erases (pure a) (pure a)
  erases_bind {α β : Type} {x : M α} {r : Run α} {f : α → M β} {g : α → Run β} :
    Erases x r → (∀ a, Erases (f a) (g a)) → Erases (x >>= f) (r >>= g)
  erases_lift {α : Type} {r : Run α} : r.Timeless → Erases (Host.lift r) r
  erases_ask {α : Type} {f : Machine → α} : (∀ m c, f (m.atClock c) = f m) →
    Erases (Host.ask f) (Run.ask f)
  erases_note {α : Type} {x : M α} {r : Run α} (e : Event) : Erases x r →
    Erases (do Host.note e; x) r
  erases_inFrame {α : Type} {x : M α} {r : Run α} (f : FrameId) :
    Erases x r → Erases (Host.inFrame f x) (Run.inFrame f r)
  erases_nested {α : Type} {x : M α} {r : Run α} : Erases x r →
    Erases (Host.nested x) (Run.nested r)
  erases_cut {α : Type} : Erases (Host.cut : M α) Run.outOfFuel
  erases_fault {α : Type} (cause : FaultCause) (span : Span) :
    Erases (Host.fault cause span : M α) (Run.fault cause span)
  erases_readClock : Erases Host.readClock Run.readClock
  erases_atLevel {α : Type} {x : Unit → M α} {r : Run α} (level : Nat) :
    Erases (x ()) r → Erases (Host.atLevel level x) r

namespace Faithful

variable {M : Type → Type} [Host M] [Faithful M]

/-! ### Lists and loops -/

theorem erases_collect {f : α → M β} {g : α → Run β} (h : ∀ a, Erases (f a) (g a)) (l : List α) :
    Erases (Host.collect f l) (Run.collect g l) := by
  induction l with
  | nil => exact erases_pure []
  | cons a l ih => exact erases_bind (h a) fun b => erases_bind ih fun bs => erases_pure (b :: bs)

theorem erases_sequence {f : α → M Flow} {g : α → Run Flow} (h : ∀ a, Erases (f a) (g a))
    (l : List α) : Erases (Host.sequence f l) (Run.sequence g l) := by
  induction l with
  | nil => exact erases_pure Flow.normal
  | cons a l ih =>
    apply erases_bind (h a)
    intro flow
    cases flow with
    | normal => exact ih
    | returned v => exact erases_pure (Flow.returned v)

theorem erases_loop {test : M Bool} {test' : Run Bool} {body : M Flow} {body' : Run Flow}
    (ht : Erases test test') (hb : Erases body body') (n : Nat) :
    Erases (Host.loop test body n) (Run.loop test' body' n) := by
  induction n with
  | zero => exact erases_cut
  | succ n ih =>
    apply erases_bind ht
    intro b
    cases b with
    | false => exact erases_pure Flow.normal
    | true =>
      apply erases_bind hb
      intro flow
      cases flow with
      | normal => exact ih
      | returned v => exact erases_pure (Flow.returned v)

/-! ### Declarations and calls -/

theorem erases_classDecl (x : Ident) (parent : Option Superclass) (methods : List FunctionDecl) :
    Erases (Host.classDecl x parent methods : M Unit) (Run.classDecl x parent methods) := by
  refine erases_bind (erases_lift (.define _ _)) fun _ =>
    erases_bind (erases_ask fun _ _ => rfl) fun frame => ?_
  have hlast : ∀ cls, Erases
      (do Host.lift (Run.define x.name (← Host.lift (Run.update (·.addClass cls)))) : M Unit)
      (do Run.define x.name (← Run.update (·.addClass cls))) := fun cls =>
    erases_bind (erases_lift (.update _)) fun v => erases_lift (.define _ v)
  cases parent with
  | none => exact erases_bind (erases_pure _) hlast
  | some p =>
    refine erases_note _ (erases_bind (erases_lift (.superclassOf p)) fun c => ?_)
    exact erases_bind (erases_lift (.update _)) fun f => erases_bind (erases_pure _) hlast

variable {exec : Stmt → M Flow} {exec' : Stmt → Run Flow}

theorem erases_invoke (h : ∀ s, Erases (exec s) (exec' s)) (f : Closure) (vs : List Value) :
    Erases (Host.invoke exec f vs) (Run.invoke exec' f vs) := by
  refine erases_bind (erases_lift (.update _)) fun frame => ?_
  refine erases_bind (erases_inFrame frame (erases_sequence h _)) fun flow => ?_
  split
  · have hthis := Run.Indifferent.askStore (g := Machine.atClock) (·.getAt? f.scope 0 "this")
    exact erases_note _ (erases_lift (hthis.bind fun _ => .orFault _ _ _))
  · cases flow <;> exact erases_pure _

theorem erases_instantiate (h : ∀ s, Erases (exec s) (exec' s)) (c : ClassId) (vs : List Value) :
    Erases (Host.instantiate exec c vs) (Run.instantiate exec' c vs) := by
  refine erases_bind (erases_lift (.update _)) fun i => ?_
  refine erases_bind (erases_ask (f := (·.store.method? c initializerName)) fun _ _ =>
    rfl) fun m => ?_
  cases m with
  | none => exact erases_pure _
  | some f =>
    exact erases_bind (erases_lift (.update _)) fun b =>
      erases_bind (erases_invoke h b vs) fun _ => erases_pure _

theorem erases_enter (h : ∀ s, Erases (exec s) (exec' s)) (callee : Value) (vs : List Value) :
    Erases (Host.enter exec callee vs) (Run.enter exec' callee vs) := by
  cases callee with
  | function f =>
    refine erases_bind (erases_ask (f := (·.store.functions[f]?)) fun _ _ => rfl) fun c => ?_
    cases c with
    | none => exact erases_pure _
    | some c => exact erases_invoke h c vs
  | cls c => exact erases_instantiate h c vs
  | nil | bool | number | string | native | object => exact erases_readClock

theorem erases_call (h : ∀ s, Erases (exec s) (exec' s)) (callee : Value) (vs : List Value)
    (paren : Span) : Erases (Host.call exec callee vs paren) (Run.call exec' callee vs paren) := by
  refine erases_bind (erases_ask (f := (·.store.arity? callee)) fun _ _ => rfl) fun n => ?_
  cases n with
  | none => exact erases_fault _ _
  | some n =>
    dsimp only
    split
    · exact erases_fault _ _
    · refine erases_bind (erases_ask (f := fun m => decide (m.maxDepth ≤ m.depth)) fun _ _ => rfl)
        fun deep => ?_
      split
      · exact erases_fault _ _
      · exact erases_nested (erases_enter h callee vs)

end Faithful

/-! ### Expressions and statements -/

open Faithful

variable {M : Type → Type} [Host M] [Faithful M]

mutual

theorem Expr.erases_evalOn :
    (fuel : Nat) → (e : Expr) → Erases (e.evalOn fuel : M Value) (e.eval fuel)
  | 0, _ => erases_cut
  | fuel + 1, e => by
    rw [Expr.eval.eq_def]
    dsimp only
    rw [Run.atLevel_eq]
    refine erases_atLevel fuel ?_
    cases e with
    | literal s l => exact erases_pure _
    | grouping s e => exact Expr.erases_evalOn fuel e
    | unary s op t e =>
      exact erases_bind (Expr.erases_evalOn fuel e) fun v =>
        erases_note _ (erases_lift (.ofExcept _ _))
    | binary s l op t r =>
      refine erases_bind (Expr.erases_evalOn fuel l) fun v =>
        erases_bind (Expr.erases_evalOn fuel r) fun w => ?_
      exact erases_note _ (erases_lift (.ofExcept _ _))
    | logical s l op r =>
      apply erases_bind (Expr.erases_evalOn fuel l)
      intro v
      split
      · exact erases_pure v
      · exact Expr.erases_evalOn fuel r
    | var s x => exact erases_note _ (erases_lift (.lookUp _ _ _))
    | assign s x e =>
      refine erases_bind (Expr.erases_evalOn fuel e) fun v => erases_note _ ?_
      exact erases_bind (erases_lift (.assign _ _ v _)) fun _ => erases_pure v
    | call s f t es =>
      apply erases_bind (Expr.erases_evalOn fuel f)
      intro callee
      refine erases_bind (erases_collect (Expr.erases_evalOn fuel) es) fun vs => erases_note _ ?_
      exact erases_call (Stmt.erases_execOn fuel) callee vs t
    | get s e x =>
      exact erases_bind (Expr.erases_evalOn fuel e) fun v =>
        erases_note _ (erases_lift (.property v x))
    | set s e x value =>
      refine erases_bind (Expr.erases_evalOn fuel e) fun v => erases_note _ ?_
      cases v with
      | object i =>
        refine erases_bind (Expr.erases_evalOn fuel value) fun v => ?_
        exact erases_bind (erases_lift (.update _)) fun _ => erases_pure v
      | nil | bool | number | string | function | cls | native => exact erases_fault _ _
    | this s => exact erases_note _ (erases_lift (.lookUp _ _ _))
    | super s x => exact erases_note _ (erases_lift (.superMethod s x))

theorem Stmt.erases_execOn :
    (fuel : Nat) → (s : Stmt) → Erases (s.execOn fuel : M Flow) (s.exec fuel)
  | 0, _ => erases_cut
  | fuel + 1, s => by
    rw [Stmt.exec.eq_def]
    dsimp only
    rw [Run.atLevel_eq]
    refine erases_atLevel fuel ?_
    cases s with
    | expr t e => exact erases_bind (Expr.erases_evalOn fuel e) fun _ => erases_pure _
    | print t e =>
      refine erases_bind (Expr.erases_evalOn fuel e) fun v => erases_note _ ?_
      have hline : Run.Timeless (do Run.printLine (← Run.ask (·.store.text v)) t) :=
        (Run.Indifferent.askStore (·.text v)).bind fun s => Run.Timeless.printLine s t
      change Erases _ ((do Run.printLine (← Run.ask (·.store.text v)) t) >>=
          fun _ => pure Flow.normal)
      exact erases_bind (erases_lift hline) fun _ => erases_pure Flow.normal
    | var t x e =>
      cases e with
      | none => exact erases_bind (erases_lift (.define _ _)) fun _ => erases_pure _
      | some e =>
        refine erases_bind (Expr.erases_evalOn fuel e) fun v => ?_
        exact erases_bind (erases_lift (.define _ v)) fun _ => erases_pure _
    | block t b =>
      refine erases_bind (erases_ask fun _ _ => rfl) fun current => ?_
      refine erases_bind (erases_lift (.update _)) fun frame => ?_
      exact erases_inFrame frame (erases_sequence (Stmt.erases_execOn fuel) b)
    | ifElse t c yes no =>
      apply erases_bind (Expr.erases_evalOn fuel c)
      intro v
      split
      · exact Stmt.erases_execOn fuel yes
      · cases no with
        | none => exact erases_pure _
        | some s => exact Stmt.erases_execOn fuel s
    | whileLoop t c b =>
      refine erases_loop ?_ (Stmt.erases_execOn fuel b) fuel
      exact erases_bind (Expr.erases_evalOn fuel c) fun v => erases_pure v.isTruthy
    | function d => exact erases_bind (erases_lift (.functionDecl d)) fun _ => erases_pure _
    | classDecl t x p ms => exact erases_bind (erases_classDecl x p ms) fun _ => erases_pure _
    | returning t k e =>
      cases e with
      | none => exact erases_pure _
      | some e => exact erases_bind (Expr.erases_evalOn fuel e) fun v => erases_pure _

end

/-- A program on a faithful host ends as the run does. -/
theorem erases_interpretOn (fuel : Nat) (body : List Stmt) :
    Erases (interpretOn fuel body : M Unit) (interpret fuel body) :=
  erases_bind (erases_sequence (Stmt.erases_execOn fuel) body) fun _ => erases_pure ()

/-! ### Recorders -/

section

open Recorder

variable {σ : Type} [Recorder σ]

/-- The result of a run when the record is left out. -/
def Ending.result : Ending σ α → Result α
  | .done a s => .done a (machine s)
  | .fault f s => .fault f (machine s)
  | .cut _ => .outOfFuel

theorem Process.result_lift (r : Run α) (s : σ) : (Process.lift r s).result = r (machine s) := by
  unfold Process.lift
  cases r (machine s) with
  | done a m => exact congrArg (Result.done a) (machine_go s m)
  | fault e m => exact congrArg (Result.fault e) (machine_go s m)
  | outOfFuel => rfl

/-- Leaving `x` does to the machine what `h` does, whatever it does to the record. -/
theorem Process.result_around {enter : σ → σ} {leave : σ → σ → σ} {h : Machine → Machine}
    (x : Process σ α) (s : σ) (hleave : ∀ t, machine (leave s t) = h (machine t)) :
    (around enter leave x s).result = (x (enter s)).result.on h := by
  unfold around
  cases x (enter s) with
  | done a t => exact congrArg (Result.done a) (hleave t)
  | fault e t => exact congrArg (Result.fault e) (hleave t)
  | cut t => rfl

instance : Faithful (Process σ) where
  Erases x r := ∀ s, (x s).result = r (machine s)
  erases_pure _ _ := rfl
  erases_bind {_ _ x r f g} h hf := by
    intro s
    change (Process.bind x f s).result = Run.bind r g (machine s)
    unfold Process.bind Run.bind
    rw [← h s]
    cases x s with
    | done a t => exact hf a t
    | fault e t => rfl
    | cut t => rfl
  erases_lift _ := Process.result_lift _
  erases_ask _ _ := rfl
  erases_note e h := fun s => (h (stop s e)).trans (congrArg _ (machine_stop s e))
  erases_inFrame {_ x r} f h := by
    intro s
    have hx := h (go s { machine s with frame := f })
    rw [machine_go] at hx
    rw [Run.inFrame_eq, ← hx]
    change (Process.inFrame f x s).result = _
    exact Process.result_around x s fun t => machine_go t _
  erases_nested {_ x r} h := by
    intro s
    have hx := h (go s { machine s with depth := (machine s).depth + 1 })
    rw [machine_go] at hx
    rw [Run.nested_eq, ← hx]
    change (Process.nested x s).result = _
    exact Process.result_around x s fun t => machine_go t _
  erases_cut _ := rfl
  erases_fault _ _ _ := rfl
  erases_readClock := Process.result_lift _
  erases_atLevel _ h := h

theorem result_interpretOn (fuel : Nat) (body : List Stmt) (s : σ) :
    ((interpretOn fuel body : Process σ Unit) s).result = interpret fuel body (machine s) :=
  erases_interpretOn (M := Process σ) fuel body s

end

end Lox
