import Lox.Proofs.Reading.Sights
/-!
# Where things stand in a piece of code

A piece of code may be run in many frames. What stands in it runs in frames further in, as many as
there are scopes of the code around it; but the methods of a class that it declares run elsewhere,
inside the frames of their receivers.
-/

namespace Lox

/-- Whether something stands in a piece of code itself or in a method of a class that
is declared there. -/
inductive Side where
  | here
  | method (inherits : Bool)

/-- Something that stands in a piece of code, with the number of scopes of the code around it, or of
the innermost method around it. -/
structure Spot where
  side : Side
  depth : Nat
  sight : Sight

namespace Spot

/-- Something that stands in no scope of the code. -/
def here (v : Sight) : Spot := ⟨.here, 0, v⟩

/-- The spot in a piece of code that opens a scope around all of it. -/
def deeper (p : Spot) : Spot :=
  match p.side with
  | .here => { p with depth := p.depth + 1 }
  | .method _ => p

/-- The spot in the declaration of a class, of something that stands in one of its methods. -/
def inMethod (inherits : Bool) (p : Spot) : Spot :=
  match p.side with
  | .here => { p with side := .method inherits }
  | .method _ => p

@[simp] theorem sight_here (v : Sight) : (here v).sight = v := rfl

@[simp] theorem sight_deeper (p : Spot) : p.deeper.sight = p.sight := by
  unfold deeper
  split <;> rfl

@[simp] theorem sight_inMethod (b : Bool) (p : Spot) : (p.inMethod b).sight = p.sight := by
  unfold inMethod
  split <;> rfl

end Spot

def Expr.spots (e : Expr) : List Spot := e.sights.map .here

mutual

def Stmt.spots : Stmt → List Spot
  | .expr _ e => e.spots
  | .print t e => e.spots ++ [.here (.print t)]
  | .var _ x none => [.here (.declaration x)]
  | .var _ x (some e) => .here (.declaration x) :: e.spots
  | .block _ b => (Stmt.spotsAll b).map .deeper
  | .ifElse _ c s none => c.spots ++ .here (.branch s) :: s.spots
  | .ifElse _ c s (some t) =>
    c.spots ++ .here (.branch s) :: s.spots ++ .here (.branch t) :: t.spots
  | .whileLoop _ c s => c.spots ++ .here (.branch s) :: s.spots
  | .function d => .here (.declaration d.name) :: d.spots
  | .classDecl _ x none ms =>
    .here (.declaration x) :: (FunctionDecl.spotsAll ms).map (.inMethod false)
  | .classDecl _ x (some p) ms =>
    .here (.declaration x) ::
    (p.sights x).map .here ++ (FunctionDecl.spotsAll ms).map (.inMethod true)
  | .returning _ k none => [.here (.returning k false)]
  | .returning _ k (some e) => .here (.returning k true) :: e.spots

def Stmt.spotsAll : List Stmt → List Spot
  | [] => []
  | s :: ss => s.spots ++ Stmt.spotsAll ss

/-- The parameters and the body of a function stand in one scope. -/
def FunctionDecl.spots : FunctionDecl → List Spot
  | .mk _ ps b _ => (ps.map (fun x => Spot.here (.declaration x)) ++ Stmt.spotsAll b).map .deeper

def FunctionDecl.spotsAll : List FunctionDecl → List Spot
  | [] => []
  | d :: ds => d.spots ++ FunctionDecl.spotsAll ds

end

mutual

/-- The functions that are declared by statements in a piece of code, also inside of
functions and of methods. -/
def Stmt.functions : Stmt → List FunctionDecl
  | .block _ b => Stmt.functionsAll b
  | .ifElse _ _ s none => s.functions
  | .ifElse _ _ s (some t) => s.functions ++ t.functions
  | .whileLoop _ _ s => s.functions
  | .function d => d :: d.functions
  | .classDecl _ _ _ ms => FunctionDecl.functionsAll ms
  | .expr .. | .print .. | .var .. | .returning .. => []

def Stmt.functionsAll : List Stmt → List FunctionDecl
  | [] => []
  | s :: ss => s.functions ++ Stmt.functionsAll ss

def FunctionDecl.functions : FunctionDecl → List FunctionDecl
  | .mk _ _ b _ => Stmt.functionsAll b

def FunctionDecl.functionsAll : List FunctionDecl → List FunctionDecl
  | [] => []
  | d :: ds => d.functions ++ FunctionDecl.functionsAll ds

end

theorem FunctionDecl.functions_eq (d : FunctionDecl) : d.functions = Stmt.functionsAll d.body := by
  cases d
  rfl

theorem FunctionDecl.mem_functionsAll {d e : FunctionDecl} {ds : List FunctionDecl} (hd : d ∈ ds)
    (he : e ∈ d.functions) : e ∈ FunctionDecl.functionsAll ds := by
  induction ds with
  | nil => cases hd
  | cons d' ds ih =>
    rcases List.mem_cons.mp hd with rfl | hd
    · exact List.mem_append_left _ he
    · exact List.mem_append_right _ (ih hd)

theorem FunctionDecl.declaration_mem_spots {d : FunctionDecl} {x : Ident} (hx : x ∈ d.parameters) :
    (Spot.here (.declaration x)).deeper ∈ d.spots := by
  cases d
  exact List.mem_map_of_mem (List.mem_append_left _ (List.mem_map.mpr ⟨x, hx, rfl⟩))

theorem FunctionDecl.deeper_mem_spots {d : FunctionDecl} {p : Spot}
    (hp : p ∈ Stmt.spotsAll d.body) : p.deeper ∈ d.spots := by
  cases d
  exact List.mem_map_of_mem (List.mem_append_right _ hp)

theorem FunctionDecl.mem_spotsAll {d : FunctionDecl} {ds : List FunctionDecl} (hd : d ∈ ds)
    {p : Spot} (hp : p ∈ d.spots) : p ∈ FunctionDecl.spotsAll ds := by
  induction ds with
  | nil => cases hd
  | cons e ds ih =>
    rcases List.mem_cons.mp hd with rfl | hd
    · exact List.mem_append_left _ hp
    · exact List.mem_append_right _ (ih hd)

/-! ### Spots and sights -/

theorem Expr.map_sight_spots (e : Expr) : e.spots.map Spot.sight = e.sights := by
  simp [Expr.spots, Function.comp_def]

mutual

theorem Stmt.map_sight_spots : (s : Stmt) → s.spots.map Spot.sight = s.sights
  | .expr _ e => e.map_sight_spots
  | .print t e => by simp [Stmt.spots, Stmt.sights, e.map_sight_spots]
  | .var _ x none => rfl
  | .var _ x (some e) => by simp [Stmt.spots, Stmt.sights, e.map_sight_spots]
  | .block _ b => by
    simpa [Stmt.spots, Stmt.sights, Function.comp_def] using Stmt.map_sight_spotsAll b
  | .ifElse _ c s none => by simp [Stmt.spots, Stmt.sights, c.map_sight_spots, s.map_sight_spots]
  | .ifElse _ c s (some t) => by
    simp [Stmt.spots, Stmt.sights, c.map_sight_spots, s.map_sight_spots, t.map_sight_spots]
  | .whileLoop _ c s => by simp [Stmt.spots, Stmt.sights, c.map_sight_spots, s.map_sight_spots]
  | .function d => by simp [Stmt.spots, Stmt.sights, d.map_sight_spots]
  | .classDecl _ x none ms => by
    simpa [Stmt.spots, Stmt.sights, Function.comp_def] using FunctionDecl.map_sight_spotsAll ms
  | .classDecl _ x (some p) ms => by
    simpa [Stmt.spots, Stmt.sights, Function.comp_def] using FunctionDecl.map_sight_spotsAll ms
  | .returning _ k none => rfl
  | .returning _ k (some e) => by simp [Stmt.spots, Stmt.sights, e.map_sight_spots]

theorem Stmt.map_sight_spotsAll :
    (ss : List Stmt) → (Stmt.spotsAll ss).map Spot.sight = Stmt.sightsAll ss
  | [] => rfl
  | s :: ss => by
    rw [Stmt.spotsAll, List.map_append, s.map_sight_spots, Stmt.map_sight_spotsAll ss,
      Stmt.sightsAll]

theorem FunctionDecl.map_sight_spots : (d : FunctionDecl) → d.spots.map Spot.sight = d.sights
  | .mk _ ps b _ => by
    simpa [FunctionDecl.spots, FunctionDecl.sights,
      Function.comp_def] using Stmt.map_sight_spotsAll b

theorem FunctionDecl.map_sight_spotsAll : (ds : List FunctionDecl) →
    (FunctionDecl.spotsAll ds).map Spot.sight = FunctionDecl.sightsAll ds
  | [] => rfl
  | d :: ds => by
    rw [FunctionDecl.spotsAll, List.map_append, d.map_sight_spots,
      FunctionDecl.map_sight_spotsAll ds, FunctionDecl.sightsAll]

end

end Lox
