import Lox.Proofs.Scoping.Visit
/-!
# What a statement does to the open scopes

A statement adds at most the one name that it declares, and adds it to the innermost scope,
as defined. Everything else that its walk opens is closed again, and the kinds of function
and class are as before. This rests on the shape of programs: a branch and the body of a loop
are never declarations.
-/

namespace Lox

/-- The name that a statement declares where it stands. -/
def Stmt.declares? : Stmt → Option String
  | .var _ x _ => some x.name
  | .function d => some d.name.name
  | .classDecl _ x _ _ => some x.name
  | _ => none

/-- The names that a statement declares in the scope in which it stands, in the
order of the text. -/
def Stmt.declaredNames : Stmt → List String
  | .var _ x _ => [x.name]
  | .function d => [d.name.name]
  | .classDecl _ x _ _ => [x.name]
  | .ifElse _ _ s none => s.declaredNames
  | .ifElse _ _ s (some t) => s.declaredNames ++ t.declaredNames
  | .whileLoop _ _ s => s.declaredNames
  | _ => []

/-- Whether a name is one that a program can choose. -/
def Plain (x : String) : Prop := x ≠ "this" ∧ x ≠ "super"

namespace Sight

/-- What holds of everything in a program that was read from tokens with identifiers in `N`: the
names of variables are among these identifiers, and branches are not declarations. -/
def Named (N : String → Prop) : Sight → Prop
  | .expr (.var _ x) => N x.name
  | .expr (.assign _ x _) => N x.name
  | .declaration x => N x.name
  | .branch s => s.declares? = none
  | _ => True

/-- What holds of everything in a program that was read from a text, in which no
identifier is reserved. -/
def Proper (v : Sight) : Prop := v.Named Plain

end Sight

/-! ### Defining names -/

namespace Table

variable {α : Type}

theorem insertIn_insertIn (x : String) (a b : α) (es : List (String × α)) :
    insertIn x b (insertIn x a es) = insertIn x b es := by
  induction es with
  | nil => simp [insertIn]
  | cons e es ih =>
    obtain ⟨y, c⟩ := e
    by_cases h : y = x <;> simp [insertIn, h, ih]

theorem find?_insert_of_ne (t : Table α) {x y : String} (a : α) (h : x ≠ y) :
    (t.insert x a).find? y = t.find? y := by
  rw [find?_insert, if_neg h]

theorem insert_insert (t : Table α) (x : String) (a b : α) :
    (t.insert x a).insert x b = t.insert x b := by
  simp only [insert, insertIn_insertIn]

end Table

/-- The scopes after a name, if there is one, is defined in the innermost. -/
def defined : Option String → List Scope → List Scope
  | some x, s :: ss => s.insert x true :: ss
  | _, ss => ss

@[simp] theorem defined_none (ss : List Scope) : defined none ss = ss := by
  cases ss <;> rfl

/-- The scopes after several statements, each of which defines the name it declares. -/
def definedAll (b : List Stmt) (ss : List Scope) : List Scope :=
  b.foldl (fun ss s => defined s.declares? ss) ss

@[simp] theorem tail_defined (x : Option String) (ss : List Scope) :
    (defined x ss).tail = ss.tail := by
  cases x <;> cases ss <;> rfl

@[simp] theorem tail_definedAll (b : List Stmt) (ss : List Scope) :
    (definedAll b ss).tail = ss.tail := by
  induction b generalizing ss with
  | nil => rfl
  | cons s b ih => exact (ih _).trans (tail_defined _ _)

@[simp] theorem definedAll_nil (b : List Stmt) : definedAll b [] = [] := by
  induction b with
  | nil => rfl
  | cons s b ih =>
    have hs : defined s.declares? [] = [] := by cases s.declares? <;> rfl
    rw [definedAll, List.foldl_cons, hs]
    exact ih

namespace Context

def openScope (c : Context) : Context := { c with scopes := .empty :: c.scopes }

def closeScope (c : Context) : Context := { c with scopes := c.scopes.tail }

/-- The context after a name, if there is one, is defined in the innermost scope. -/
def define (c : Context) (x : Option String) : Context := { c with scopes := defined x c.scopes }

@[simp] theorem define_none (c : Context) : c.define none = c := by
  simp [define]

/-- The context after several names are defined in the innermost scope. -/
def defineAll (c : Context) (xs : List String) : Context :=
  xs.foldl (fun c x => c.define (some x)) c

@[simp] theorem defineAll_nil (c : Context) : c.defineAll [] = c := rfl

theorem defineAll_append (c : Context) (xs ys : List String) :
    c.defineAll (xs ++ ys) = (c.defineAll xs).defineAll ys := List.foldl_append

/-- Nothing but the innermost scope changes. -/
theorem defineAll_eq (c : Context) (xs : List String) :
    ∃ ss, c.defineAll xs = { c with scopes := ss } ∧ ss.tail = c.scopes.tail := by
  induction xs generalizing c with
  | nil => exact ⟨c.scopes, rfl, rfl⟩
  | cons x xs ih =>
    obtain ⟨ss, hc, ht⟩ := ih (c.define (some x))
    exact ⟨ss, hc, ht.trans (tail_defined _ _)⟩

@[simp] theorem closeScope_defineAll_openScope (c : Context) (xs : List String) :
    (c.openScope.defineAll xs).closeScope = c := by
  obtain ⟨ss, hc, ht⟩ := c.openScope.defineAll_eq xs
  rw [hc, closeScope, ht]
  rfl

/-- The context of the methods of a class. -/
def inClass (c : Context) (x : String) (parent : Option Superclass) : Context :=
  let c := { c with classKind := .plain }.define (some x)
  let c :=
    match parent with
    | none => c
    | some _ => { c with classKind := .subclass }.openScope.define (some "super")
  c.openScope.define (some "this")

theorem inClass_none (c : Context) (x : String) :
    c.inClass x none =
      ⟨Table.empty.insert "this" true :: defined (some x) c.scopes, c.function, .plain⟩ := rfl

theorem inClass_some (c : Context) (x : String) (p : Superclass) :
    c.inClass x (some p) =
      ⟨Table.empty.insert "this" true :: Table.empty.insert "super" true ::
        defined (some x) c.scopes,
        c.function, .subclass⟩ := rfl

end Context

namespace Walk

@[simp] theorem context_openScope (w : Walk) : w.openScope.context = w.context.openScope := rfl

@[simp] theorem context_closeScope (w : Walk) : w.closeScope.context = w.context.closeScope := rfl

@[simp] theorem context_define (w : Walk) (x : String) :
    (w.define x).context = w.context.define (some x) := by
  unfold define
  split <;> rename_i h <;> simp [context, Context.define, defined, h]

theorem context_declare_define (w : Walk) (x : Ident) :
    ((w.declare x).define x.name).context = w.context.define (some x.name) := by
  rw [context_define]
  unfold declare
  split
  · rfl
  · rename_i s ss h
    by_cases hx : s.contains x.name = true
    · simp [hx, report, context]
    · simp [hx, h, context, Context.define, defined, Table.insert_insert]

/-- Parameters change nothing but the innermost scope. -/
theorem context_declareAll (w : Walk) (xs : List Ident) :
    ∃ ss, (w.declareAll xs).context = { w.context with scopes := ss } ∧
    ss.tail = w.scopes.tail := by
  induction xs generalizing w with
  | nil => exact ⟨w.scopes, rfl, rfl⟩
  | cons x xs ih =>
    obtain ⟨ss, hc, ht⟩ := ih ((w.declare x).define x.name)
    have hx := w.context_declare_define x
    refine ⟨ss, ?_, ?_⟩
    · rw [hx] at hc
      exact hc
    · rw [ht, show ((w.declare x).define x.name).scopes = _ from congrArg Context.scopes hx]
      exact tail_defined _ _

theorem context_enterClass (w : Walk) (x : Ident) (p : Option Superclass) :
    (w.enterClass x p).context = w.context.inClass x.name p := by
  have hx := context_declare_define { w with classKind := .plain } x
  cases p with
  | none =>
    rw [enterClass, context_define, context_openScope, hx]
    rfl
  | some p =>
    let u := ({ w with classKind := .plain }.declare x).define x.name
    let v := u.reportIf (p.name.name == x.name) .selfInheritance p.name.span
    have hv : v.context = u.context := u.context_reportIf _ _ _
    have hs : { v with classKind := .subclass }.context =
        { v.context with classKind := .subclass } := rfl
    rw [enterClass, context_define, context_openScope, context_define, context_openScope]
    change (({ v with classKind := .subclass }.read p.site p.name).context.openScope.define
      (some "super")).openScope.define (some "this") = _
    rw [context_read, hs, hv, hx]
    rfl

theorem context_leaveClass (w before : Walk) (p : Option Superclass) :
    (w.leaveClass before p).context =
      { w.context with
        scopes := if p.isSome then w.scopes.tail.tail else w.scopes.tail
        classKind := before.classKind } := by
  cases p <;> rfl

end Walk

/-! ### The effect of statements -/

mutual

theorem Stmt.context_resolve_eq (w : Walk) : (s : Stmt) →
    (s.resolve w).context = w.context.defineAll s.declaredNames
  | .expr _ e => e.context_resolve w
  | .print _ e => e.context_resolve w
  | .var _ x none => w.context_declare_define x
  | .var _ x (some e) => by
    rw [Stmt.resolve, Walk.context_define, e.context_resolve, ← Walk.context_define]
    exact w.context_declare_define x
  | .block _ b => by
    rw [Stmt.resolve, Walk.context_closeScope, Stmt.context_resolveAll_eq w.openScope b]
    exact w.context.closeScope_defineAll_openScope (b.flatMap Stmt.declaredNames)
  | .ifElse _ c s none => by
    rw [Stmt.resolve, s.context_resolve_eq, c.context_resolve]
    rfl
  | .ifElse _ c s (some t) => by
    rw [Stmt.resolve, t.context_resolve_eq, s.context_resolve_eq, c.context_resolve,
      ← Context.defineAll_append]
    rfl
  | .whileLoop _ c s => by
    rw [Stmt.resolve, s.context_resolve_eq, c.context_resolve]
    rfl
  | .function d => by
    rw [Stmt.resolve, d.context_resolve]
    exact w.context_declare_define d.name
  | .classDecl _ x p ms => by
    have hc := FunctionDecl.context_resolveMethods (w.enterClass x p) ms
    have hs := congrArg Context.scopes hc
    rw [Walk.context_enterClass] at hc hs
    rw [Stmt.resolve, Walk.context_leaveClass, hc,
      show (FunctionDecl.resolveMethods (w.enterClass x p) ms).scopes = _ from hs]
    cases p <;> rfl
  | .returning _ k none => w.context_checkReturn k false
  | .returning _ k (some e) => by
    rw [Stmt.resolve, e.context_resolve]
    exact w.context_checkReturn k true

theorem Stmt.context_resolveAll_eq (w : Walk) : (ss : List Stmt) →
    (Stmt.resolveAll w ss).context = w.context.defineAll (ss.flatMap Stmt.declaredNames)
  | [] => rfl
  | s :: ss => by
    rw [Stmt.resolveAll, Stmt.context_resolveAll_eq, s.context_resolve_eq, List.flatMap_cons,
      Context.defineAll_append]

theorem FunctionDecl.context_resolve (w : Walk) : (d : FunctionDecl) → (kind : FunctionKind) →
    (d.resolve w kind).context = w.context
  | .mk _ ps b _, kind => by
    obtain ⟨ss, hc, ht⟩ := { w with function := kind }.openScope.context_declareAll ps
    obtain ⟨ts, hd, hu⟩ :=
      ({ w with function := kind }.openScope.declareAll ps).context.defineAll_eq
        (b.flatMap Stmt.declaredNames)
    have hb := Stmt.context_resolveAll_eq ({ w with function := kind }.openScope.declareAll ps) b
    rw [hd, hc, Walk.context, Context.mk.injEq] at hb
    rw [FunctionDecl.resolve, Walk.context, Context.mk.injEq]
    refine ⟨?_, rfl, hb.2.2⟩
    change (Stmt.resolveAll ({ w with function := kind }.openScope.declareAll ps) b).scopes.tail =
        w.scopes
    rw [hb.1, hu, hc]
    exact ht

theorem FunctionDecl.context_resolveMethods (w : Walk) : (ds : List FunctionDecl) →
    (FunctionDecl.resolveMethods w ds).context = w.context
  | [] => rfl
  | d :: ds => by
    rw [FunctionDecl.resolveMethods, FunctionDecl.context_resolveMethods, d.context_resolve]

end

/-- In a proper program a statement declares no other name than its own. -/
theorem Stmt.declaredNames_eq (w : Walk) : (s : Stmt) → (∀ v ∈ s.visits w, v.sight.Proper) →
    s.declaredNames = s.declares?.toList
  | .expr _ _, _ | .print _ _, _ | .var _ _ _, _ | .block _ _, _ | .function _, _
  | .classDecl _ _ _ _, _
  | .returning _ _ _, _ => rfl
  | .ifElse _ c s none, h => by
    simp only [Stmt.visits, List.mem_append, List.mem_cons] at h
    have hs : s.declares? = none := h _ (.inr (.inl rfl))
    have ih := s.declaredNames_eq (c.resolve w) fun v hv => h v (.inr (.inr hv))
    rwa [hs] at ih
  | .ifElse _ c s (some t), h => by
    simp only [Stmt.visits, List.mem_append, List.mem_cons] at h
    have hs : s.declares? = none := h _ (.inl (.inr (.inl rfl)))
    have ht : t.declares? = none := h _ (.inr (.inl rfl))
    have ihs := s.declaredNames_eq (c.resolve w) fun v hv => h v (.inl (.inr (.inr hv)))
    have iht := t.declaredNames_eq (s.resolve (c.resolve w)) fun v hv => h v (.inr (.inr hv))
    rw [Stmt.declaredNames, ihs, iht, hs, ht]
    rfl
  | .whileLoop _ c s, h => by
    simp only [Stmt.visits, List.mem_append, List.mem_cons] at h
    have hs : s.declares? = none := h _ (.inr (.inl rfl))
    have ih := s.declaredNames_eq (c.resolve w) fun v hv => h v (.inr (.inr hv))
    rwa [hs] at ih

theorem Stmt.context_resolve (w : Walk) (s : Stmt) (h : ∀ v ∈ s.visits w, v.sight.Proper) :
    (s.resolve w).context = w.context.define s.declares? := by
  rw [s.context_resolve_eq, s.declaredNames_eq w h]
  cases s.declares? with
  | none => exact w.context.define_none.symm
  | some x => rfl

theorem Stmt.context_resolveAll (w : Walk) (ss : List Stmt)
    (h : ∀ v ∈ Stmt.visitsAll w ss, v.sight.Proper) :
    (Stmt.resolveAll w ss).context =
      { w.context with scopes := definedAll ss w.context.scopes } := by
  induction ss generalizing w with
  | nil => rfl
  | cons s ss ih =>
    simp only [Stmt.visitsAll, List.mem_append] at h
    rw [Stmt.resolveAll, ih (s.resolve w) fun v hv => h v (.inr hv),
      s.context_resolve w fun v hv => h v (.inl hv)]
    rfl

/-! ### The scopes alone -/

@[simp] theorem defined_defined (x : String) (ss : List Scope) :
    defined (some x) (defined (some x) ss) = defined (some x) ss := by
  cases ss with
  | nil => rfl
  | cons s ss => simp [defined, Table.insert_insert]

theorem Walk.scopes_declare_define (w : Walk) (x : Ident) :
    ((w.declare x).define x.name).scopes = defined (some x.name) w.scopes :=
  congrArg Context.scopes (w.context_declare_define x)

/-- The scope that holds the parameters. -/
def parameterScope (xs : List Ident) : Scope := xs.foldl (fun t x => t.insert x.name true) .empty

theorem Walk.scopes_declareAll {w : Walk} {c : Scope} {cs : List Scope} (h : w.scopes = c :: cs)
    (xs : List Ident) :
    (w.declareAll xs).scopes = xs.foldl (fun t x => t.insert x.name true) c :: cs := by
  induction xs generalizing w c with
  | nil => exact h
  | cons x xs ih =>
    refine ih ?_
    rw [w.scopes_declare_define, h]
    rfl

/-- The methods of a class are visited one after another from the same scopes. -/
theorem FunctionDecl.exists_visits_of_mem {w : Walk} {d : FunctionDecl} {ds : List FunctionDecl}
    (hd : d ∈ ds) : ∃ u : Walk, u.context = w.context ∧
      ∀ v ∈ d.visits u (.ofMethod d.name.name), v ∈ FunctionDecl.visitsMethods w ds := by
  induction ds generalizing w with
  | nil => cases hd
  | cons e es ih =>
    rw [FunctionDecl.visitsMethods]
    rcases List.mem_cons.mp hd with rfl | hd
    · exact ⟨w, rfl, fun v hv => List.mem_append_left _ hv⟩
    · obtain ⟨u, hu, hv⟩ := ih hd
      exact ⟨u, hu.trans (e.context_resolve w _), fun v hvu => List.mem_append_right _ (hv v hvu)⟩

theorem Expr.scopes_resolve (w : Walk) (e : Expr) : (e.resolve w).scopes = w.scopes :=
  congrArg Context.scopes (e.context_resolve w)

theorem Stmt.scopes_resolve {w : Walk} {s : Stmt} (h : ∀ v ∈ s.visits w, v.sight.Proper) :
    (s.resolve w).scopes = defined s.declares? w.scopes :=
  congrArg Context.scopes (s.context_resolve w h)

/-- Neither a condition nor a branch after it leaves a name behind. -/
theorem Stmt.scopes_resolve_branch {w : Walk} {c : Expr} {s : Stmt} (hd : s.declares? = none)
    (h : ∀ v ∈ s.visits (c.resolve w), v.sight.Proper) :
    (s.resolve (c.resolve w)).scopes = w.scopes := by
  rw [Stmt.scopes_resolve h, hd, defined_none, c.scopes_resolve]

end Lox
