import Lox.Proofs.Lexical.Simulation
import Lox.Proofs.Session.Reach
/-!
# Names mean what the text says

The evaluator finds variables by distances along chains of frames. On accepted programs it does what
the lexical interpreter does, which finds them by where they stand in the text, unless a local
variable is assigned in its own initial value.
-/

namespace Lox

open Lexical

/-- Whether a run and one of the lexical interpreter end in the same way and have
printed the same then. -/
inductive Result.EndsAs : Result Unit → Ending World Unit → Prop where
  | done {m : Machine} {w : World} : w.output = m.output → EndsAs (.done () m) (.done () w)
  | fault {e : Fault} {m : Machine} {w : World} : w.output = m.output →
      EndsAs (.fault e m) (.fault e w)
  | outOfFuel {w : World} : EndsAs .outOfFuel (.cut w)

/-- What a run that has come to its end has printed. -/
def Ending.printed? : Ending World Unit → Option ByteArray
  | .done _ w => some w.output.written
  | _ => none

theorem Result.EndsAs.printed {r : Result Unit} {y : Ending World Unit} (h : r.EndsAs y)
    {b : ByteArray} (hb : y.printed? = some b) : ∃ m, r = .done () m ∧ m.output.written = b := by
  cases h with
  | done ho => exact ⟨_, rfl, (congrArg Output.written ho).symm.trans (Option.some.inj hb)⟩
  | fault ho => cases hb
  | outOfFuel => cases hb

/-- Runs in lockstep end alike when the record is left out, and have printed the same
wherever they end. -/
theorem Lockstep.endsAs {V : Visit → Prop} {κ : Naming} {x : Watched Unit} {y : Process World Unit}
    {w : Watch} {v : World} {Q : Naming → Unit → Watch → Unit → World → Prop}
    (h : Lockstep V κ x y w v Q) :
    (x w).result.EndsAs (y v) ∧ (y v).state.output = (x w).state.machine.output := by
  unfold Lockstep at h
  generalize x w = p at h ⊢
  generalize y v = q at h ⊢
  cases h with
  | done hd =>
    obtain ⟨ν, -, hl, -⟩ := hd
    exact ⟨.done hl.output, hl.output⟩
  | fault ho => exact ⟨.fault ho, ho⟩
  | cut ho => exact ⟨.outOfFuel, ho⟩

/-- Before a program runs no variable has a cell. -/
theorem Machine.linked_initial (V : Visit → Prop) (output : Output) (maxDepth : Nat)
    (clock : Nat → Float) (d : Distances) :
    Machine.Linked V (fun _ _ => none) ((Machine.initial output maxDepth clock).addDistances d)
      (World.initial output maxDepth clock) where
  store := {
    globals := fun _ => rfl
    inner := fun _ => rfl
    cells := nofun
    injective := nofun
    functions := .empty
    classes := .empty
    natives := rfl
    instances := rfl }
  depth := rfl
  maxDepth := rfl
  output := rfl
  clock := rfl
  readings := rfl

namespace Analysis

variable {f : SourceFile} {firstId : Nat}

/-- The stops of the walk in an accepted program in which nothing is assigned in its
own initial value. -/
theorem clean_visits (he : (ofFile f firstId).errors.hasErrors = false)
    (hs : (ofFile f firstId).program.selfAssigns = false) {d : Distances}
    (hd : HistorySound [(f, ofFile f firstId)] d (ofFile f firstId).nextId) (v : Visit)
    (hv : v ∈ (ofFile f firstId).visits) : v.Clean d := by
  refine ⟨hd.visits v ⟨_, List.mem_cons_self, hv⟩, fun hself => ?_⟩
  have hany := Stmt.anySelfAssigns_of_visits Context.settled_start (ofFile f firstId).program.body
    (fun u hu => (sound_visits he u hu).toFaultless) v hv hself
  exact absurd (hany.symm.trans hs) (by decide)

/-- A machine that is about to run the program and has run nothing yet. -/
def start (a : Analysis) (output : Output) (maxDepth : Nat) (clock : Nat → Float) : Machine :=
  (Machine.initial output maxDepth clock).addDistances a.distances

/-- An accepted program in which no local variable is assigned in its own initial value does the
same, however long it runs, whether its names are looked up by distances along frames or where they
stand in the text. -/
theorem binds_lexically (f : SourceFile) (firstId : Nat)
    (he : (ofFile f firstId).errors.hasErrors = false)
    (hs : (ofFile f firstId).program.selfAssigns = false)
    (fuel : Nat) (output : Output) (maxDepth : Nat) (clock : Nat → Float) :
    (interpret fuel (ofFile f firstId).program.body
      ((ofFile f firstId).start output maxDepth clock)).EndsAs
        (Lexical.interpret fuel (ofFile f firstId).program.body (.initial output maxDepth clock)) ∧
      (Lexical.interpret fuel (ofFile f firstId).program.body
        (.initial output maxDepth clock)).state.output =
        (watchAll fuel (ofFile f firstId).program.body
          ⟨(ofFile f firstId).start output maxDepth clock, []⟩).state.machine.output := by
  let m := (ofFile f firstId).start output maxDepth clock
  have hsession := Session.sound_initial output maxDepth clock
  have hh := (hsession.history.skip (Nat.zero_le firstId)).add he
  let V : Visit → Prop := (· ∈ (ofFile f firstId).visits)
  have hstore : m.store.Sound V := hsession.store.imp fun v ⟨p, hp, _⟩ => absurd hp List.not_mem_nil
  have hstand :
      Stand V m.distances (fun _ _ => none) ⟨m, []⟩ (.initial output maxDepth clock) [] .top := {
    sound := ⟨hstore, rfl, fun _ hx => absurd hx List.not_mem_nil⟩
    mirrors := ⟨rfl, trivial⟩
    linked := Machine.linked_initial V output maxDepth clock _
    sees := fun _ => rfl
    place := trivial }
  have hends := (lock_watchAll (clean_visits he hs hh) fuel (fun _ hx => hx) hstand).endsAs
  rwa [result_watchAll] at hends

/-- A variable that is declared after a function with its name in it. -/
def shadowingSource : SourceFile :=
  ⟨"shadow.lox", "var a = nil; { fun show() { print a; } show(); var a = true; show(); print a; }"⟩

/-- The function goes on printing the global variable. -/
theorem binds_lexically_before_shadowing :
    ∃ m, interpret 60 (ofFile shadowingSource 0).program.body
        ((ofFile shadowingSource 0).start .unlimited 9 fun _ => 0) = .done () m ∧
      m.output.written = "nil\nnil\ntrue\n".toUTF8 := by
  have hprinted : (Lexical.interpret 60 (ofFile shadowingSource 0).program.body
      (.initial .unlimited 9 fun _ => 0)).printed? = some "nil\nnil\ntrue\n".toUTF8 := by
    decide +kernel
  exact (binds_lexically shadowingSource 0 (by decide +kernel) (by decide +kernel) 60 .unlimited 9
    fun _ => 0).1.printed hprinted

end Analysis

end Lox
