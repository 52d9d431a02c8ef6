import Lox.Proofs.Running.Bound
import Lox.Proofs.Session.Static
/-!
# What calls answer

At all times in all runs of all programs that do not name variables `this` or `super`, whether they
have static errors or not, a call enters a function with as many arguments as it has parameters. A
method that it enters is bound to an instance, and if it is an initializer it answers with this
instance. A class answers with the instance that the call made.
-/

namespace Lox

/-- Where programs that were run one after the other leave the machine, each to its
end or to a fault. -/
inductive Machine.Reached : List (List Stmt) → Machine → Prop where
  | initial (output : Output) (maxDepth : Nat) (clock : Nat →
      Float) : Reached [] (.initial output maxDepth clock)
  | run {bodies : List (List Stmt)} {m n : Machine} {body : List Stmt} {fuel : Nat}
      (d : Distances) :
    Reached bodies m → (∀ v ∈ Stmt.sightsAll body, v.NamesPlain) →
    (interpret fuel body (m.addDistances d)).machine? = some n → Reached (body :: bodies) n

/-- Whether a statement in one of the programs declares the function. -/
def DeclaredIn (bodies : List (List Stmt)) (d : FunctionDecl) : Prop :=
  ∃ body ∈ bodies, d ∈ Stmt.functionsAll body

/-- How a machine calls. -/
structure Machine.CallsBind (F : FunctionDecl → Prop) (m : Machine) : Prop where
  /-- A function that a program can hold is declared by a statement or is a bound method. -/
  held : ∀ c ∈ m.store.functions, c.Declared F ∨ ∃ i, c.Bound m.store i
  /-- So is a function that is called. -/
  called {callee c g} : Run.Enters m callee c g → c.Declared F ∨ ∃ i, c.Bound g.store i
  /-- Nothing is entered unless there are as many arguments as parameters. -/
  arity {callee c g} : Run.Enters m callee c g →
    ∀ fuel vs paren, vs.length ≠ c.decl.parameters.length →
    Run.call (Stmt.exec fuel) callee vs paren m =
      .fault ⟨.wrongArity c.decl.parameters.length vs.length, paren⟩ m
  /-- A call whose body has ended is answered. -/
  answered {callee c g} : Run.Enters m callee c g →
    ∀ fuel vs paren, vs.length = c.decl.parameters.length →
    m.depth < m.maxDepth →
    ∀ flow o, Run.sequence (Stmt.exec fuel) c.decl.body (g.inBody c vs) = .done flow o →
    ∃ v n, Run.call (Stmt.exec fuel) callee vs paren m = .done v n
  /-- An initializer answers with the instance that it is bound to. -/
  initializer {f c i} : m.store.functions[f]? = some c → c.Bound m.store i →
    c.decl.name.name = initializerName →
    ∀ fuel vs paren v n, Run.call (Stmt.exec fuel) (.function f) vs paren m =
      .done v n → v = .object i
  /-- A class answers with an instance of it that was not there before. -/
  constructor {k} : ∀ fuel vs paren v n, Run.call (Stmt.exec fuel) (.cls k) vs paren m = .done v n →
    v = .object m.store.instances.size ∧
      ∃ inst, n.store.instances[m.store.instances.size]? = some inst ∧ inst.cls = k

variable {F F' : FunctionDecl → Prop} {m n g o : Machine} {bodies : List (List Stmt)}
  {body : List Stmt} {callee : Value} {c : Closure} {vs : List Value} {fuel : Nat} {flow : Flow}

/-! ### One call -/

/-- What is entered is a declared function or a bound method. -/
theorem Run.Enters.binds (h : Run.Enters m callee c g) (hm : m.store.Binds F) :
    g.store.Binds F ∧ c.decl.WellNamed F ∧ (c.Declared F ∨ ∃ i, c.Bound g.store i) := by
  cases h with
  | function hc =>
    have hmem := Array.mem_of_getElem? hc
    exact ⟨hm, hm.code.functions c hmem, hm.functions c hmem⟩
  | @initializer k f hf =>
    obtain ⟨k', cls, -, hhas⟩ := Store.hasMethod_of_method? hf
    have hhas : (m.store.addInstance ⟨k, .empty⟩).2.HasMethod k' cls f := ⟨hhas.known, hhas.found⟩
    have hnew : (m.store.addInstance ⟨k, .empty⟩).2.instances[m.store.instances.size]? =
        some ⟨k, .empty⟩ :=
      Array.getElem?_push_size
    have hbinds := hm.addInstance ⟨k, .empty⟩
    have hnamed := hbinds.wellNamed_of_hasMethod hhas
    obtain ⟨hb, hbound⟩ := hbinds.bind hhas hnew
    exact ⟨hb, hnamed, .inr ⟨_, hbound⟩⟩

/-- The body of what is entered keeps what is bound. -/
theorem Store.Binds.extends_body (hg : g.store.Binds F) (hc : c.decl.WellNamed F)
    (h : Run.sequence (Stmt.exec fuel) c.decl.body (g.inBody c vs) = .done flow o) :
    g.store.Extends o.store ∧ o.depth = g.depth := by
  have hC := Condition.invariant_binding F g.store g.distances
  obtain ⟨hframe, -, hbody⟩ := hC.call vs ⟨.refl _, hg⟩ (FunctionDecl.forall_spots.mpr hc.plain)
  have hready :
      (Condition.binding F g.store g.distances).Ready (max g.depth g.maxDepth) (g.inBody c vs) :=
    ⟨hframe.good, trivial, rfl, Nat.le_max_left _ _, Nat.le_max_right _ _⟩
  have hmoves := moves_sequence hC hready hbody (c.decl.functions_eq ▸ hc.functions) h
  exact ⟨hmoves.ready.good.1, hmoves.depth⟩

/-- What a closure answers when its body has ended. -/
inductive Closure.Answers (s : Store) (c : Closure) (flow : Flow) : Value → Prop where
  | value : c.isInitializer = false → Answers s c flow flow.value
  | receiver {i : InstanceId} : c.isInitializer = true → c.Bound s i → Answers s c flow (.object i)

/-- A call whose body has ended is answered, and the caller goes on where it was. -/
theorem Run.Enters.call_done (h : Run.Enters m callee c g) (hm : m.store.Binds F)
    (hn : vs.length = c.decl.parameters.length) (hd : m.depth < m.maxDepth)
    (hbody : Run.sequence (Stmt.exec fuel) c.decl.body (g.inBody c vs) = .done flow o)
    (paren : Span) :
    ∃ v, c.Answers g.store flow v ∧ Run.call (Stmt.exec fuel) callee vs paren m =
      .done (callee.handBack m v) { o with frame := m.frame, depth := m.depth } := by
  obtain ⟨hg, hnamed, hc⟩ := h.binds hm
  obtain ⟨hext, hdepth⟩ := hg.extends_body hnamed hbody
  have hback : o.depth - 1 = m.depth := by
    have hgm : g.depth = m.depth + 1 := by cases h <;> rfl
    rw [hdepth, hgm, Nat.add_sub_cancel]
  obtain ⟨v, hanswers, hv⟩ : ∃ v, c.Answers g.store flow v ∧
      c.answer flow { o with frame := m.frame } = .done v { o with frame := m.frame } := by
    cases hinit : c.isInitializer with
    | false =>
      refine ⟨_, .value hinit, ?_⟩
      unfold Closure.answer
      rw [hinit]
      rfl
    | true =>
      obtain ⟨i, hi⟩ := hc.resolve_left fun hdecl => by rw [hdecl.plain] at hinit; cases hinit
      refine ⟨_, .receiver hinit hi, ?_⟩
      unfold Closure.answer
      rw [hinit, if_pos rfl]
      change Run.orFault (o.store.bound? c.scope "this") _ _ _ = _
      rw [(hi.mono hext).this]
      rfl
  refine ⟨v, hanswers, ?_⟩
  rw [h.call, if_neg (not_not_intro hn), if_neg (Nat.not_le_of_lt hd), hbody, Result.on_done,
    Result.andThen_done, hv, Result.andThen_done, ← hback]
  rfl

/-- A call that was answered ran a body to its end. -/
theorem Run.Enters.of_call_done (h : Run.Enters m callee c g) {paren : Span} {v : Value}
    (hr : Run.call (Stmt.exec fuel) callee vs paren m = .done v n) :
    vs.length = c.decl.parameters.length ∧ m.depth < m.maxDepth ∧
      ∃ flow o, Run.sequence (Stmt.exec fuel) c.decl.body (g.inBody c vs) = .done flow o := by
  rw [h.call] at hr
  split at hr
  · cases hr
  · rename_i hn
    split at hr
    · cases hr
    · rename_i hd
      obtain ⟨_, hr, -⟩ := Result.on_eq_done.mp hr
      obtain ⟨_, _, hr, -⟩ := Result.andThen_eq_done.mp hr
      obtain ⟨flow, _, hr, -⟩ := Result.andThen_eq_done.mp hr
      obtain ⟨o, hbody, -⟩ := Result.on_eq_done.mp hr
      exact ⟨of_not_not hn, Nat.lt_of_not_le hd, flow, o, hbody⟩

theorem Store.Binds.calls (hm : m.store.Binds F) : m.CallsBind F where
  held := hm.functions
  called h := (h.binds hm).2.2
  arity h fuel vs paren hn := by rw [h.call, if_pos hn]
  answered h fuel vs paren hn hd flow o hbody := by
    obtain ⟨v, -, hr⟩ := h.call_done hm hn hd hbody paren
    exact ⟨_, _, hr⟩
  initializer {f c i} hf hbound hname fuel vs paren v n hr := by
    have h : Run.Enters m (.function f) c { m with depth := m.depth + 1 } := .function hf
    obtain ⟨hn, hd, flow, o, hbody⟩ := h.of_call_done hr
    obtain ⟨w, hanswers, hcall⟩ := h.call_done hm hn hd hbody paren
    rw [hcall] at hr
    cases hr
    cases hanswers with
    | value hinit =>
      rw [hbound.initializer, hname] at hinit
      cases hinit
    | receiver _ hi => exact Option.some.inj (hi.this.symm.trans hbound.this)
  constructor {k} fuel vs paren v n hr := by
    cases hf : m.store.method? k initializerName with
    | none =>
      rw [Run.call_of_no_initializer hf] at hr
      split at hr
      · cases hr
      · split at hr
        · cases hr
        · cases hr
          exact ⟨rfl, ⟨k, .empty⟩, Array.getElem?_push_size, rfl⟩
    | some f =>
      have h := Run.Enters.initializer hf
      obtain ⟨hn, hd, flow, o, hbody⟩ := h.of_call_done hr
      obtain ⟨w, -, hcall⟩ := h.call_done hm hn hd hbody paren
      rw [hcall] at hr
      cases hr
      obtain ⟨hg, hnamed, -⟩ := h.binds hm
      obtain ⟨hext, -⟩ := hg.extends_body hnamed hbody
      have hnew : (m.store.addInstance ⟨k, .empty⟩).2.instances[m.store.instances.size]? =
          some ⟨k, .empty⟩ :=
        Array.getElem?_push_size
      obtain ⟨inst, hinst, hcls⟩ := hext.instances _ _ hnew
      exact ⟨rfl, inst, hinst, hcls⟩

/-! ### All runs -/

theorem Store.Binds.imp {s : Store} (h : s.Binds F) (hF : ∀ d, F d → F' d) : s.Binds F' where
  code := h.code.imp fun _ hd => ⟨hd.plain, fun e he => hF e (hd.functions e he)⟩
  functions c hc := (h.functions c hc).imp_left fun hd => ⟨hd.plain, hF _ hd.declared⟩
  initializers := h.initializers
  receivers := h.receivers

/-- A run keeps what is bound, and at all its stops the same holds. -/
theorem Store.Binds.follows (h : m.store.Binds (DeclaredIn bodies))
    (hbody : ∀ v ∈ Stmt.sightsAll body, v.NamesPlain) (d : Distances) (fuel : Nat) :
    (Condition.binding (DeclaredIn (body :: bodies)) m.store (m.addDistances d).distances).Follows
      (max m.depth m.maxDepth) (.start (m.addDistances d))
        (traceAll fuel body (.start (m.addDistances d))).state := by
  have hbinds : m.store.Binds (DeclaredIn (body :: bodies)) :=
    h.imp fun _ ⟨b, hb, hd⟩ => ⟨b, List.mem_cons_of_mem _ hb, hd⟩
  exact follows_traceAll (Condition.invariant_binding _ _ _)
    (.addDistances ⟨.refl _, hbinds⟩ trivial rfl)
    (Stmt.forall_spotsAll.mpr hbody) (fun e he => ⟨body, List.mem_cons_self, he⟩) fuel

private theorem Machine.binds_initial (output : Output) (maxDepth : Nat) (clock : Nat → Float) :
    (initial output maxDepth clock).store.Binds F where
  code := ⟨nofun, nofun⟩
  functions := nofun
  initializers hm := by
    have hk := hm.known
    cases hk
  receivers {f v} hv := by
    change (Store.addFrame _ _).2.bound? f "this" = some v at hv
    rw [Store.bound?_addFrame] at hv
    split at hv
    · rw [Table.find?_insert, if_neg (by decide)] at hv
      cases hv
    · cases hv

theorem Machine.Reached.binds (h : m.Reached bodies) : m.store.Binds (DeclaredIn bodies) := by
  induction h with
  | initial output maxDepth clock => exact binds_initial output maxDepth clock
  | @run bodies m n body fuel d _ hbody hn ih =>
    have hmoves := (ih.follows hbody d fuel).moves
    rw [← result_traceAll] at hn
    have hresult : (traceAll fuel body (.start (m.addDistances d))).result ≠ .outOfFuel := by
      intro hcut
      rw [hcut] at hn
      cases hn
    rw [Ending.machine_result hresult] at hn
    obtain rfl := Option.some.inj hn
    exact hmoves.ready.good.2

/-- Nothing that is read from a text names a variable `this` or `super`. -/
theorem Analysis.namesPlain (f : SourceFile) (firstId : Nat) :
    ∀ v ∈ Stmt.sightsAll (ofFile f firstId).program.body, v.NamesPlain := fun v hv =>
  Sight.Proper.namesPlain ((fit_ofFile f firstId).1.proper v hv)

/-- At all times in all runs of all programs that do not name variables `this` or `super`, with any
distances, the arguments of a call are as many as the parameters, methods are bound to instances,
initializers answer with the instance and classes with the one that the call made. -/
theorem Machine.Reached.callsBind (h : m.Reached bodies)
    (hbody : ∀ v ∈ Stmt.sightsAll body, v.NamesPlain) (d : Distances) (fuel : Nat) :
    ∀ p ∈ (traceAll fuel body (.start (m.addDistances d))).state.stops,
      p.machine.CallsBind (DeclaredIn (body :: bodies)) := fun p hp =>
  ((h.binds.follows hbody d fuel).sound.stops p hp).ready.good.2.calls

/-- A class that inherits its initializer, and a program that holds the
initializer of an instance. -/
def inheritedSource : SourceFile :=
  ⟨"inherited.lox",
    "class A { init(x) { this.x = x; return; } } class B < A {} var f = B(nil).init;"⟩

/-- Whether the first function is an initializer, and calls of it and of the second
class are answered. -/
def Machine.answersInit (m : Machine) : Bool :=
  (m.store.functions[0]?).any (fun c => c.isInitializer && c.decl.name.name == initializerName) &&
    (Run.call (Stmt.exec 20) (.function 0) [.nil] (.point .start) m).isDone &&
    (Run.call (Stmt.exec 20) (.cls 1) [.nil] (.point .start) m).isDone

/-- The initializer that the program holds answers with its instance, and the class with one
that was not there. -/
theorem callsBind_inherited :
    let a := Analysis.ofFile inheritedSource 0
    let m := Machine.initial .unlimited 9 fun _ => 0
    ∃ p ∈ (traceAll 40 a.program.body (.start (m.addDistances a.distances))).state.stops,
      (∃ c i n, p.machine.store.functions[0]? = some c ∧ c.Bound p.machine.store i ∧
        Run.call (Stmt.exec 20) (.function 0) [.nil] (.point .start) p.machine =
          .done (.object i) n) ∧
      ∃ n, Run.call (Stmt.exec 20) (.cls 1) [.nil] (.point .start) p.machine =
        .done (.object p.machine.store.instances.size) n := by
  intro a m
  have hany : ((traceAll 40 a.program.body (.start (m.addDistances a.distances))).state.stops).any
      (·.machine.answersInit) = true := by decide +kernel
  have hplain : ∀ v ∈ Stmt.sightsAll a.program.body, v.NamesPlain :=
    Analysis.namesPlain inheritedSource 0
  have hreached : m.Reached [] := .initial _ _ _
  clear_value a m
  obtain ⟨p, hp, htest⟩ := List.any_eq_true.mp hany
  have hcalls := hreached.callsBind hplain a.distances 40 p hp
  unfold Machine.answersInit at htest
  simp only [Bool.and_eq_true] at htest
  obtain ⟨⟨hinit, hcall⟩, hnew⟩ := htest
  obtain ⟨c, hc, hinit⟩ := (Option.any_eq_true _ _).mp hinit
  obtain ⟨hinit, hname⟩ := (Bool.and_eq_true _ _).mp hinit
  obtain ⟨i, hi⟩ := (hcalls.held c (Array.mem_of_getElem? hc)).resolve_left fun hdecl => by
    rw [hdecl.plain] at hinit
    cases hinit
  obtain ⟨v, n, hv⟩ := Result.exists_of_isDone hcall
  obtain ⟨w, o, hw⟩ := Result.exists_of_isDone hnew
  obtain rfl := hcalls.initializer hc hi (eq_of_beq hname) 20 _ _ v n hv
  obtain ⟨rfl, -⟩ := hcalls.constructor 20 _ _ w o hw
  exact ⟨p, hp, ⟨c, i, n, hc, hi, hv⟩, o, hw⟩

end Lox
