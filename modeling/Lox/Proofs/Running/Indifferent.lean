import Lox.Proofs.Running.Primitive
/-!
# What the parts of the evaluator do not see

Between two recursive calls the evaluator goes by the store, the current frame and the distances.
Whatever else of the machine is exchanged, it does the same and leaves the rest as it is; only the
printing of a line and the clock see more.
-/

namespace Lox

variable {ι α β : Type}

/-- Changes of what is aside of the store, the current frame and the distances. -/
class Machine.Aside (g : Machine → ι → Machine) : Prop where
  store (m : Machine) (i : ι) : (g m i).store = m.store
  frame (m : Machine) (i : ι) : (g m i).frame = m.frame
  distances (m : Machine) (i : ι) : (g m i).distances = m.distances
  update (m : Machine) (i : ι) (s : Store) : g { m with store := s } i = { g m i with store := s }

/-- `r` is the same before and after the changes. -/
def Run.Indifferent (g : Machine → ι → Machine) (r : Run α) : Prop :=
  ∀ m i, r (g m i) = (r m).on (g · i)

namespace Run.Indifferent

variable {g : Machine → ι → Machine} {r : Run α}

theorem pure (a : α) : Indifferent g (pure a) := fun _ _ => rfl

theorem fault (cause : FaultCause) (span : Span) : Indifferent g (Run.fault cause span : Run α) :=
  fun _ _ => rfl

theorem ask {f : Machine → α} (hf : ∀ m i, f (g m i) = f m) :
    Indifferent g (Run.ask f) := fun m i =>
  congrArg (Result.done · (g m i)) (hf m i)

theorem orFault (x : Option α) (cause : FaultCause) (span : Span) :
    Indifferent g (Run.orFault x cause span) := by
  cases x with
  | some a => exact pure a
  | none => exact fault cause span

theorem ofExcept (x : Except FaultCause α) (span : Span) : Indifferent g (Run.ofExcept x span) := by
  cases x with
  | ok a => exact pure a
  | error cause => exact fault cause span

theorem bind {f : α → Run β} (h : r.Indifferent g) (hf : ∀ a, (f a).Indifferent g) :
    Indifferent g (r >>= f) := by
  intro m i
  change Run.bind r f (g m i) = (Run.bind r f m).on (g · i)
  unfold Run.bind
  rw [h m i]
  cases r m with
  | done a n => exact hf a n i
  | fault e n => rfl
  | outOfFuel => rfl

variable [Machine.Aside g]

theorem askStore (f : Store → α) : Indifferent g (Run.ask fun m => f m.store) :=
  ask fun m i => congrArg f (Machine.Aside.store m i)

theorem update (f : Store → α × Store) : Indifferent g (Run.update f) := by
  intro m i
  unfold Run.update
  rw [Machine.Aside.store]
  exact congrArg (Result.done _) (Machine.Aside.update m i _).symm

theorem define (x : String) (v : Value) : Indifferent g (Run.define x v) := by
  intro m i
  have hstore : (g m i).store.define (g m i).frame x v = m.store.define m.frame x v := by
    rw [Machine.Aside.store, Machine.Aside.frame]
  unfold Run.define
  rw [hstore]
  exact congrArg (Result.done ()) (Machine.Aside.update m i _).symm

/-! ### Variables, methods and properties -/

theorem valueAt (d : Nat) (x : String) (span : Span) : Indifferent g (Run.valueAt d x span) := by
  intro m i
  unfold Run.valueAt
  rw [Machine.Aside.store, Machine.Aside.frame]
  exact orFault _ _ span m i

theorem lookUp (id : Nat) (x : String) (span : Span) : Indifferent g (Run.lookUp id x span) := by
  intro m i
  have hvalue : Run.valueOf? (g m i) id x = Run.valueOf? m id x := by
    simp only [Run.valueOf?, Machine.Aside.store, Machine.Aside.frame, Machine.Aside.distances]
  rw [Run.lookUp_eq, Run.lookUp_eq, hvalue]
  exact orFault _ _ span m i

theorem assign (id : Nat) (x : String) (v : Value) (span : Span) :
    Indifferent g (Run.assign id x v span) := by
  intro m i
  have hframe : Run.frameOf? (g m i) id x = Run.frameOf? m id x := by
    simp only [Run.frameOf?, Machine.Aside.store, Machine.Aside.frame, Machine.Aside.distances]
  rw [Run.assign_eq, Run.assign_eq, hframe]
  cases Run.frameOf? m id x with
  | none => rfl
  | some f =>
    dsimp only
    rw [Machine.Aside.store]
    exact congrArg (Result.done ()) (Machine.Aside.update m i _).symm

theorem superMethod (s : Site) (x : Ident) : Indifferent g (Run.superMethod s x) := by
  refine (ask fun m i => congrArg (Distances.get? · s.id)
    (Machine.Aside.distances m i)).bind fun d => ?_
  cases d with
  | none => exact fault _ _
  | some d =>
    refine (valueAt d "super" s.span).bind fun parent => ?_
    split
    · exact fault _ _
    · refine (valueAt (d - 1) "this" s.span).bind fun object => ?_
      split
      · refine (askStore (·.method? _ _)).bind fun f => ?_
        cases f with
        | none => exact fault _ _
        | some f => exact update _
      · exact fault _ _

theorem property (v : Value) (x : Ident) : Indifferent g (Run.property v x) := by
  cases v with
  | object i =>
    refine (askStore (·.property? i x.name)).bind fun p => ?_
    split
    · exact pure _
    · exact update _
    · exact fault _ _
  | nil | bool | number | string | function | cls | native => exact fault _ _

theorem superclassOf (p : Superclass) : Indifferent g (Run.superclassOf p) := by
  refine (lookUp _ _ _).bind fun v => ?_
  cases v with
  | cls c => exact pure c
  | nil | bool | number | string | function | native | object => exact fault _ _

theorem functionDecl (d : FunctionDecl) : Indifferent g (Run.functionDecl d) :=
  (ask Machine.Aside.frame).bind fun _ => (update _).bind fun _ => define _ _

end Run.Indifferent

end Lox
