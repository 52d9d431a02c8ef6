import Lox.Proofs.Scoping.Visit
/-!
# The statements in a program

The walk that resolves names comes to every statement of a program, also to those inside of others.
What it stops at in a statement it stops at in all statements around it.
-/

namespace Lox

mutual

/-- The statements in a statement and itself, each with the walk as it comes to the statement. -/
def Stmt.statements (w : Walk) (s : Stmt) : List (Walk × Stmt) :=
  (w, s) ::
    match s with
    | .block _ b => Stmt.statementsAll w.openScope b
    | .ifElse _ c s none => s.statements (c.resolve w)
    | .ifElse _ c s (some t) => s.statements (c.resolve w) ++ t.statements (s.resolve (c.resolve w))
    | .whileLoop _ c s => s.statements (c.resolve w)
    | .function d => d.statements ((w.declare d.name).define d.name.name) .function
    | .classDecl _ x p ms => FunctionDecl.statementsMethods (w.enterClass x p) ms
    | .expr .. | .print .. | .var .. | .returning .. => []

def Stmt.statementsAll (w : Walk) : List Stmt → List (Walk × Stmt)
  | [] => []
  | s :: ss => s.statements w ++ Stmt.statementsAll (s.resolve w) ss

def FunctionDecl.statements (w : Walk) : FunctionDecl → FunctionKind → List (Walk × Stmt)
  | .mk _ ps b _, kind => Stmt.statementsAll ({ w with function := kind }.openScope.declareAll ps) b

def FunctionDecl.statementsMethods (w : Walk) : List FunctionDecl → List (Walk × Stmt)
  | [] => []
  | d :: ds =>
    let kind := FunctionKind.ofMethod d.name.name
    d.statements w kind ++ FunctionDecl.statementsMethods (d.resolve w kind) ds

end

variable {v : Walk} {t : Stmt}

mutual

theorem Stmt.visits_subset (w : Walk) :
    (s : Stmt) → (v, t) ∈ s.statements w → t.visits v ⊆ s.visits w
  | s, h => by
    rw [Stmt.statements.eq_def, List.mem_cons] at h
    obtain h | h := h
    · cases h
      exact fun _ hu => hu
    cases s with
    | block _ b => exact Stmt.visits_subset_all _ b h
    | ifElse _ c s n =>
      cases n with
      | none =>
        exact fun u hu => List.mem_append_right _ (List.mem_cons_of_mem _ (s.visits_subset _ h hu))
      | some n =>
        obtain h | h := List.mem_append.mp h
        · exact fun u hu => List.mem_append_left _
            (List.mem_append_right _ (List.mem_cons_of_mem _ (s.visits_subset _ h hu)))
        · exact fun u hu =>
            List.mem_append_right _ (List.mem_cons_of_mem _ (n.visits_subset _ h hu))
    | whileLoop _ c s =>
      exact fun u hu => List.mem_append_right _ (List.mem_cons_of_mem _ (s.visits_subset _ h hu))
    | function d => exact fun u hu => List.mem_cons_of_mem _ (d.visits_subset _ _ h hu)
    | classDecl _ x p ms =>
      exact fun u hu => List.mem_append_right _ (FunctionDecl.visits_subset_methods _ ms h hu)
    | expr | print | var | returning => cases h

theorem Stmt.visits_subset_all (w : Walk) :
    (ss : List Stmt) → (v, t) ∈ Stmt.statementsAll w ss → t.visits v ⊆ Stmt.visitsAll w ss
  | [], h => by cases h
  | s :: ss, h => by
    obtain h | h := List.mem_append.mp h
    · exact fun u hu => List.mem_append_left _ (s.visits_subset w h hu)
    · exact fun u hu => List.mem_append_right _ (Stmt.visits_subset_all _ ss h hu)

theorem FunctionDecl.visits_subset (w : Walk) : (d : FunctionDecl) → (kind : FunctionKind) →
    (v, t) ∈ d.statements w kind → t.visits v ⊆ d.visits w kind
  | .mk _ _ b _, _, h => fun _ hu => List.mem_append_right _ (Stmt.visits_subset_all _ b h hu)

theorem FunctionDecl.visits_subset_methods (w : Walk) : (ds : List FunctionDecl) →
    (v, t) ∈ FunctionDecl.statementsMethods w ds → t.visits v ⊆ FunctionDecl.visitsMethods w ds
  | [], h => by cases h
  | d :: ds, h => by
    obtain h | h := List.mem_append.mp h
    · exact fun u hu => List.mem_append_left _ (d.visits_subset w _ h hu)
    · exact fun u hu => List.mem_append_right _ (FunctionDecl.visits_subset_methods _ ds h hu)

end

end Lox
