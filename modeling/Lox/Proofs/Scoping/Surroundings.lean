import Lox.Proofs.Scoping.Effect
/-!
# What is around a place

Going outward from a place in a program one leaves initial values, scopes, functions and classes,
one after another. All of this stands in the text: a scope holds its parameters and the names that
are declared in it before the place, and the scopes of a class hold `this` and `super`. So the
distance of a variable and the rules that a program can break are said here of the text alone,
without a walk that keeps track of scopes.
-/

namespace Lox

/-- Something around a place in a program. -/
inductive Layer where
  /-- The initial value of a variable with the name. -/
  | initial (x : String)
  /-- A scope with the names that stand in it before the place, in the order of the text. -/
  | scope (names : List String)
  | function (isMethod : Bool) (name : String)
  | cls (inherits : Bool)

namespace Layer

def names? : Layer → Option (List String)
  | scope xs => some xs
  | _ => none

/-- Whether a function is a method, and its name. -/
def function? : Layer → Option (Bool × String)
  | function b x => some (b, x)
  | _ => none

/-- Whether a class inherits. -/
def class? : Layer → Option Bool
  | cls b => some b
  | _ => none

end Layer

/-- What is around a place, from the innermost layer outward. -/
abbrev Surroundings := List Layer

namespace Surroundings

/-- The names in the scopes around a place, from the innermost scope outward. -/
def scopes (a : Surroundings) : List (List String) := a.filterMap Layer.names?

/-- The innermost function around a place. -/
def function? (a : Surroundings) : Option (Bool × String) := a.findSome? Layer.function?

/-- The innermost class around a place. -/
def class? (a : Surroundings) : Option Bool := a.findSome? Layer.class?

/-- The names in the scope in which a place stands; there are none at top level. -/
def localNames (a : Surroundings) : List String := a.scopes.headD []

/-- Whether the scope that is reached across `d` boundaries of scopes holds the name. -/
def HoldsAt (a : Surroundings) (x : String) (d : Nat) : Prop :=
  ∃ xs, a.scopes[d]? = some xs ∧ x ∈ xs

/-- The fewest boundaries of scopes to a scope that holds the name are `d`. -/
structure Nearest (a : Surroundings) (x : String) (d : Nat) : Prop where
  holds : a.HoldsAt x d
  least : ∀ e < d, ¬ a.HoldsAt x e

/-- Whether the place is in the initial value of a local variable with the name, which is declared
there for the first time in its scope. -/
def definesFirst (x : String) : Surroundings → Bool
  | .initial y :: a => y == x && (localNames a).count x == 1
  | _ => false

/-- The surroundings of what comes after names that are declared in the same scope. -/
def declare (xs : List String) : Surroundings → Surroundings
  | .scope ys :: a => .scope (ys ++ xs) :: a
  | a => a

/-- What is around the methods of a class. -/
def inClass (x : String) (inherits : Bool) (a : Surroundings) : Surroundings :=
  if inherits then .scope ["this"] :: .scope ["super"] :: .cls true :: a.declare [x]
  else .scope ["this"] :: .cls false :: a.declare [x]

end Surroundings

/-- Something that stands in a program, with what is around it. -/
structure Occurrence where
  sight : Sight
  around : Surroundings

namespace Occurrence

/-- Whether the expression with the number `i` names a variable at the distance `d`. What `this`
names is looked for in classes only. -/
def Records (o : Occurrence) (i d : Nat) : Prop :=
  match o.sight with
  | .expr (.var s x) => s.id = i ∧ o.around.Nearest x.name d
  | .expr (.assign s x _) => s.id = i ∧ o.around.Nearest x.name d
  | .expr (.this s) => s.id = i ∧ o.around.class?.isSome ∧ o.around.Nearest "this" d
  | .expr (.super s _) => s.id = i ∧ o.around.Nearest "super" d
  | _ => False

/-- The rule that is broken at a place, and where this is seen. -/
def violation? (o : Occurrence) : Option (Located ScopeError) :=
  match o.sight with
  | .declaration x => if x.name ∈ o.around.localNames then some ⟨.alreadyDeclared, x.span⟩ else none
  | .expr (.var _ x) =>
    if o.around.definesFirst x.name then some ⟨.selfReferentialInitializer, x.span⟩ else none
  | .expr (.this s) => if o.around.class? = none then some ⟨.thisOutsideClass, s.span⟩ else none
  | .expr (.super s _) =>
    match o.around.class? with
    | none => some ⟨.superOutsideClass, s.span⟩
    | some false => some ⟨.superWithoutSuperclass, s.span⟩
    | some true => none
  | .inheritance x p => if p.name.name = x.name then some ⟨.selfInheritance, p.name.span⟩ else none
  | .returning k hasValue =>
    match o.around.function? with
    | none => some ⟨.returnOutsideFunction, k⟩
    | some (isMethod, x) =>
      if hasValue ∧ isMethod ∧ x = initializerName then
        some ⟨.returnValueFromInitializer, k⟩ else none
  | _ => none

end Occurrence

/-! ### Going down the tree -/

/-- No expression opens a scope. -/
def Expr.occurrences (a : Surroundings) (e : Expr) : List Occurrence :=
  e.nodes.map fun n => ⟨.expr n, a⟩

/-- Parameters, each of which stands after those before it. -/
def Surroundings.parameters (a : Surroundings) : List String → List Ident → List Occurrence
  | _, [] => []
  | xs, y :: ys => ⟨.declaration y, .scope xs :: a⟩ :: a.parameters (xs ++ [y.name]) ys

/-- The name of a class and its superclass. -/
def Surroundings.classHead (a : Surroundings) (x : Ident) : Option Superclass → List Occurrence
  | none => [⟨.declaration x, a⟩]
  | some p =>
    [⟨.declaration x, a⟩, ⟨.inheritance x p, a.declare [x.name]⟩,
      ⟨.expr p.node, a.declare [x.name]⟩]

mutual

/-- What stands in a statement, with what is around it. -/
def Stmt.occurrences (a : Surroundings) : Stmt → List Occurrence
  | .expr _ e => e.occurrences a
  | .print _ e => e.occurrences a
  | .var _ x none => [⟨.declaration x, a⟩]
  | .var _ x (some e) =>
    ⟨.declaration x, a⟩ :: e.occurrences (.initial x.name :: a.declare [x.name])
  | .block _ b => Stmt.occurrencesAll (.scope [] :: a) b
  | .ifElse _ c s none => c.occurrences a ++ s.occurrences a
  | .ifElse _ c s (some t) =>
    c.occurrences a ++ s.occurrences a ++ t.occurrences (a.declare s.declaredNames)
  | .whileLoop _ c s => c.occurrences a ++ s.occurrences a
  | .function d => ⟨.declaration d.name, a⟩ :: d.occurrences (a.declare [d.name.name]) false
  | .classDecl _ x p ms =>
    a.classHead x p ++ FunctionDecl.occurrencesAll (a.inClass x.name p.isSome) ms
  | .returning _ k none => [⟨.returning k false, a⟩]
  | .returning _ k (some e) => ⟨.returning k true, a⟩ :: e.occurrences a

def Stmt.occurrencesAll (a : Surroundings) : List Stmt → List Occurrence
  | [] => []
  | s :: ss => s.occurrences a ++ Stmt.occurrencesAll (a.declare s.declaredNames) ss

/-- The parameters and the body of a function stand in one scope. -/
def FunctionDecl.occurrences (a : Surroundings) : FunctionDecl → Bool → List Occurrence
  | .mk x ps b _, isMethod =>
    Surroundings.parameters (.function isMethod x.name :: a) [] ps ++
      Stmt.occurrencesAll (.scope (ps.map Ident.name) :: .function isMethod x.name :: a) b

def FunctionDecl.occurrencesAll (a : Surroundings) : List FunctionDecl → List Occurrence
  | [] => []
  | d :: ds => d.occurrences a true ++ FunctionDecl.occurrencesAll a ds

end

/-- What stands in a program. -/
def Program.occurrences (p : Program) : List Occurrence := Stmt.occurrencesAll [] p.body

/-- The rules that a program breaks. -/
def Program.violations (p : Program) : List (Located ScopeError) :=
  p.occurrences.filterMap Occurrence.violation?

end Lox
