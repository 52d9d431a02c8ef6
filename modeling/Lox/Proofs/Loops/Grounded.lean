import Lox.Proofs.Loops.Abreast
import Lox.Proofs.Running.Answers
import Lox.Proofs.Running.Confined
/-!
# Nothing is missing

Whatever a store refers to is in it, and no frame is around that of the global variables. This is so
of a machine that has run nothing yet, and all that is run keeps it. Such a machine is side by side
with itself, each of its frames with itself.
-/

namespace Lox

variable {m n : Machine}

structure Machine.Grounded (m : Machine) : Prop where
  closed : ∀ t u, m.store.Refers t u → m.store.Has u
  frame : m.store.Has (.frame m.frame)
  globals : m.store.Has (.frame Lox.globals)
  root : m.store.enclosing? Lox.globals = none

/-- Each of the first `k` frames with itself. -/
def Pairing.same (k : Nat) : Pairing := fun p f f' => p = .outside ∧ f < k ∧ f' = f

namespace Machine.Grounded

theorem abreast_self (h : m.Grounded) :
    m.Abreast m.distances (.same m.store.frames.size) .outside m where
  store := {
    frames := by
      rintro p _ f ⟨rfl, hf, rfl⟩ -
      refine ⟨m.store.frames[f], _, Array.getElem?_eq_getElem hf,
        Array.getElem?_eq_getElem hf, rfl, ?_⟩
      cases hg : m.store.frames[f].enclosing with
      | none => exact .inl ⟨rfl, rfl⟩
      | some g =>
        have hrefers := Store.Refers.frame (Array.getElem?_eq_getElem hf) (.enclosing hg)
        exact .inr ⟨g, g, rfl, rfl, rfl, h.closed _ _ hrefers, rfl⟩
    extra := fun hp => by cases hp.1
    left := by
      rintro p q f _ g' ⟨rfl, -, rfl⟩ hp ⟨rfl, -, rfl⟩
      exact ⟨hp, rfl⟩
    right := by
      rintro p q f g _ ⟨-, -, rfl⟩ - ⟨-, -, rfl⟩ -
      rfl
    root := h.root
    globals := ⟨rfl, h.globals, rfl⟩
    functions := by
      refine ⟨rfl, fun i => ?_⟩
      cases hc : m.store.functions[i]? with
      | none => exact .inl ⟨rfl, rfl⟩
      | some c =>
        exact .inr ⟨c, c, rfl, rfl, .outside, ⟨rfl, h.closed _ _ (.function hc), rfl⟩, rfl,
          fun _ => Setting.outside_ne, c.decl.lifted_outside _⟩
    classes := by
      refine ⟨rfl, fun i => ?_⟩
      cases hk : m.store.classes[i]? with
      | none => exact .inl ⟨rfl, rfl⟩
      | some k =>
        refine .inr ⟨k, k, rfl, rfl, rfl, rfl, fun x => ?_⟩
        cases hc : k.methods.find? x with
        | none => exact .inl ⟨rfl, rfl⟩
        | some c =>
          exact .inr ⟨c, c, rfl, rfl, .outside,
            ⟨rfl, h.closed _ _ (.cls hk (.method hc)), rfl⟩, rfl,
            c.decl.lifted_outside _⟩
    natives := rfl
    instances := rfl }
  frame := ⟨rfl, h.frame, rfl⟩
  distances := rfl
  distances' := rfl
  depth := rfl
  maxDepth := rfl
  output := rfl
  clock := rfl
  readings := rfl

/-! ### Machines that are reached -/

theorem addDistances (h : m.Grounded) (d : Distances) : (m.addDistances d).Grounded :=
  ⟨h.closed, h.frame, h.globals, h.root⟩

theorem withFrame (h : m.Grounded) {f : FrameId} (hf : f < m.store.frames.size) :
    Machine.Grounded { m with frame := f } :=
  ⟨h.closed, hf, h.globals, h.root⟩

theorem initial (output : Output) (maxDepth : Nat) (clock : Nat → Float) :
    (Machine.initial output maxDepth clock).Grounded where
  closed t u hu := by
    obtain hu | hu := Store.refers_addFrame hu
    · cases hu with
      | frame h | function h | cls h | object h => cases h
    · cases hu with
      | enclosing hg => cases hg
      | bound hu =>
        obtain hu | hu := hu.of_insert
        · exact absurd hu (Table.not_refers_empty u)
        · obtain rfl := Option.some.inj hu
          exact Nat.zero_lt_one
  frame := Nat.zero_lt_one
  globals := Nat.zero_lt_one
  root := rfl

/-- What a run in the region of all that there is leaves. -/
theorem of_stays (h : m.Grounded) (hn : m.Stays ⟨m.store.Has, m.store⟩ n)
    (hroot : n.store.enclosing? Lox.globals = none) : n.Grounded := by
  have hhas : ∀ t, n.store.Has t → Region.Holds ⟨m.store.Has, m.store⟩ n.store t := fun t ht =>
    (Classical.em (m.store.Has t)).imp id fun hnot => ⟨hnot, ht⟩
  have hholds : ∀ t, Region.Holds ⟨m.store.Has, m.store⟩ n.store t → n.store.Has t := fun t ht =>
    ht.elim (hn.later t) And.right
  exact {
    closed := fun t u hu => hholds u (hn.confined.store.closed t u (hhas t hu.has) hu)
    frame := hn.frame ▸ hn.later _ h.frame
    globals := hn.later _ h.globals
    root := hroot }

theorem confined (h : m.Grounded) : m.Confined ⟨m.store.Has, m.store⟩ where
  store := {
    later := .refl _
    closed := fun t u _ hu => .inl (h.closed t u hu)
    frames := fun _ _ hf hnot => absurd (Array.getElem?_eq_some_iff.mp hf).1 hnot
    instances := fun _ _ hi hnot => absurd (Array.getElem?_eq_some_iff.mp hi).1 hnot }
  frame := .inl h.frame
  globals := .inl h.globals

/-- However statements end, nothing is missing after them. -/
theorem sequence (h : m.Grounded) (fuel : Nat) (ss : List Stmt)
    (hn : (Run.sequence (Stmt.exec fuel) ss m).machine? = some n) : n.Grounded := by
  have hself :=
    Run.Abreast.sequence (abreast m.distances fuel).2 (Stmt.liftedAll_outside _ ss) h.abreast_self
  have hstays := Run.Stays.sequence (Region.stays ⟨m.store.Has, m.store⟩ fuel).2 ss h.confined
  unfold Run.Abreast at hself
  unfold Run.Stays at hstays
  cases hr : Run.sequence (Stmt.exec fuel) ss m with
  | done flow o =>
    rw [hr] at hself hstays hn
    obtain rfl := Option.some.inj hn
    obtain ⟨_, _, _, _, ho, _⟩ := hself
    exact h.of_stays hstays.1 ho.abreast.store.root
  | fault e o =>
    rw [hr] at hself hstays hn
    obtain rfl := Option.some.inj hn
    obtain ⟨_, _, _, ho⟩ := hself
    exact h.of_stays hstays ho.abreast.store.root
  | outOfFuel =>
    rw [hr] at hn
    cases hn

end Machine.Grounded

/-- Where programs leave the machine nothing is missing. -/
theorem Machine.Reached.grounded {bodies : List (List Stmt)} (h : m.Reached bodies) :
    m.Grounded := by
  induction h with
  | initial output maxDepth clock => exact .initial output maxDepth clock
  | @run bodies m n body fuel d _ _ hn ih =>
    refine (ih.addDistances d).sequence fuel body ?_
    change (Run.bind (Run.sequence (Stmt.exec fuel) body) _ _).machine? = some n at hn
    unfold Run.bind at hn
    cases hr : Run.sequence (Stmt.exec fuel) body (m.addDistances d) <;> rw [hr] at hn <;> exact hn

end Lox
