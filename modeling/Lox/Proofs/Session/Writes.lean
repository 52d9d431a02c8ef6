import Lox.Proofs.Scoping.SelfAssignment
import Lox.Proofs.Session.Reads
/-!
# Assigning local variables

An assignment with a distance finds its variable unless it stands in the initial value of that very
variable: there the scope holds the name already, and the frame does not yet.
-/

namespace Lox

theorem Run.assign_of_distance {m : Machine} {id d : Nat} (hd : m.distances.get? id = some d)
    (x : String) (v : Value) (span : Span) :
    Run.assign id x v span m =
      match m.store.bindingAt? m.frame d x with
      | some f => .done () { m with store := m.store.define f x v }
      | none => .fault ⟨.undefinedVariable x, span⟩ m := by
  cases hb : m.store.bindingAt? m.frame d x with
  | none => simp only [Run.assign, hd, hb]
  | some f => simp only [Run.assign, hd, hb]

/-- A name that is declared and not yet defined is not bound in a frame that mirrors its scope. -/
theorem Store.Mirrors.bindingAt?_eq_none {s : Store} {f : FrameId} {c : Context} {x : String}
    (h : s.Mirrors f c.scopes) (hx : c.isUndefined x = true) : s.bindingAt? f 0 x = none := by
  rw [bindingAt?_eq_none_iff, getAt?_zero]
  obtain ⟨ss, k, l⟩ := c
  cases ss with
  | nil => cases hx
  | cons t ts =>
    have ht : t.find? x = some false := by simpa [Context.isUndefined] using hx
    cases hb : s.bound? f x with
    | none => rfl
    | some v =>
      have hbound := h.exact x (by simp [hb])
      rw [ht] at hbound
      cases hbound

namespace Session

/-- An assignment with a distance fails exactly where the name is declared and not yet defined. -/
theorem MomentSound.bindingAt?_eq_none_iff {h : List (SourceFile × Analysis)} {m : Moment}
    (hm : MomentSound h m) {i : Site} {x : Ident} {e : Expr} {c : Context}
    (hc : Visited h ⟨.expr (.assign i x e), c⟩)
    (hmir : m.machine.store.Mirrors m.machine.frame c.scopes) {d : Nat}
    (hd : m.machine.distances.get? i.id = some d) :
    m.machine.store.bindingAt? m.machine.frame d x.name = none ↔ c.isUndefined x.name = true := by
  have hv := hm.visits _ hc
  have hn : c.nearest? x.name = some d := (hv.recorded i.id rfl).symm.trans hd
  refine ⟨fun hnone => ?_, fun hx => ?_⟩
  · refine hv.inScope (Decidable.byContradiction fun hstatus => ?_)
    have hsome := hmir.covers.getAt?_nearest hn (Context.status?_of_nearest? hn hstatus)
    rw [(Store.bindingAt?_eq_none_iff _ _ _ _).mp hnone] at hsome
    cases hsome
  · obtain rfl : d = 0 := by
      rw [(Context.status?_of_isUndefined hx).2] at hn
      exact (Option.some.inj hn).symm
    exact hmir.bindingAt?_eq_none hx

/-- Wherever a run of a session carries out an assignment with a distance, it fails exactly if the
name is declared and not yet defined at the one stop of the walk at it; and then the program that it
stands in has a local variable whose initial value assigns the variable itself. -/
theorem Reaches.assignment_faults_iff {h : List (SourceFile × Analysis)} {s : Session}
    (hs : Reaches h s) (fuel : Nat) (f : SourceFile) {m : Moment} (hm : m ∈ s.moments fuel f)
    {i : Site} {x : Ident} {e : Expr} (he : m.event = .node (.assign i x e)) {d : Nat}
    (hd : m.machine.distances.get? i.id = some d) :
    ∃ c, (∀ c', Visited (s.accepted f ++ h) ⟨.expr (.assign i x e), c'⟩ → c' = c) ∧
      (∃ p ∈ s.accepted f ++ h, ⟨.expr (.assign i x e), c⟩ ∈ p.2.visits ∧
        (c.isUndefined x.name = true → p.2.program.selfAssigns = true)) ∧
      ∀ v, if c.isUndefined x.name then
          Run.assign i.id x.name v x.span m.machine =
            .fault ⟨.undefinedVariable x.name, x.span⟩ m.machine
        else
          ∃ n, Run.assign i.id x.name v x.span m.machine = .done () n := by
  have hms := hs.sound.moment hm
  obtain ⟨c, hc, hu, hmir⟩ := hms.exists_visit he
  have hiff := hms.bindingAt?_eq_none_iff hc hmir hd
  refine ⟨c, hu, ?_, fun v => ?_⟩
  · obtain ⟨p, hp, hv⟩ := hc
    refine ⟨p, hp, hv, fun hx => ?_⟩
    have hfaultless : ∀ u ∈ p.2.visits, u.Faultless := fun u hu =>
      (hms.visits u ⟨p, hp, hu⟩).toFaultless
    exact Stmt.anySelfAssigns_of_visits Context.settled_start p.2.program.body hfaultless _ hv hx
  · rw [Run.assign_of_distance hd]
    split
    · rename_i hx
      rw [hiff.mpr hx]
    · rename_i hx
      cases hb : m.machine.store.bindingAt? m.machine.frame d x.name with
      | none => exact absurd (hiff.mp hb) hx
      | some g => exact ⟨_, rfl⟩

/-- A local variable that is assigned in its own initial value. -/
def selfAssigningSource : SourceFile := ⟨"self.lox", "{ var a = a = nil; print a; }"⟩

/-- Whether an assignment gets to work whose variable should be in the current frame and is not. -/
def Moment.missesVariable (m : Moment) : Bool :=
  match m.event with
  | .node (.assign i x _) =>
    m.machine.distances.get? i.id == some 0 &&
      m.machine.store.bindingAt? m.machine.frame 0 x.name == none
  | _ => false

/-- The assignment in the initial value fails. -/
theorem assignment_faults_in_own_initializer :
    ∃ m ∈ (Session.initial fun _ => 0).moments 60 selfAssigningSource, ∃ i x e, ∃ c : Context,
      m.event = .node (.assign i x e) ∧ c.isUndefined x.name = true ∧
        Run.assign i.id x.name .nil x.span m.machine =
          .fault ⟨.undefinedVariable x.name, x.span⟩ m.machine := by
  have hany : ((Session.initial fun _ => 0).moments 60 selfAssigningSource).any
      Moment.missesVariable = true := by
    decide +kernel
  obtain ⟨m, hm, hassign⟩ := List.any_eq_true.mp hany
  unfold Moment.missesVariable at hassign
  split at hassign
  · rename_i i x e he
    obtain ⟨hd, hb⟩ := Bool.and_eq_true_iff.mp hassign
    obtain ⟨c, -, -, hiff⟩ :=
      Reaches.assignment_faults_iff (.initial _ _ _) 60 selfAssigningSource hm he
      (eq_of_beq hd)
    have hfault : Run.assign i.id x.name .nil x.span m.machine =
        .fault ⟨.undefinedVariable x.name, x.span⟩ m.machine := by
      rw [Run.assign_of_distance (eq_of_beq hd), eq_of_beq hb]
    have h := hiff .nil
    split at h
    · rename_i hx
      exact ⟨m, hm, i, x, e, c, he, hx, hfault⟩
    · obtain ⟨n, hn⟩ := h
      rw [hfault] at hn
      cases hn
  · cases hassign

end Session

end Lox
