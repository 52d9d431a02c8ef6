import Lox.Proofs.Session.Findings
import Lox.Proofs.Session.Numbers
/-!
# Sinks as lists that are cut

However a sink is filled, it is the list of all that was put into it, cut at the limit, with the
length that the list had before. Sinks that were cut already may thus be put together in any order
that keeps the lists in theirs, and what a session reports for a source is the list of the errors of
all its stages, cut once.
-/

namespace Lox

private theorem take_take_append {α : Type} (n : Nat) (l m : List α) :
    (l.take n ++ m).take n = (l ++ m).take n := by
  simp only [List.take_append, List.take_take, List.length_take, Nat.min_self]
  obtain hn | hn := Nat.le_total n l.length
  · rw [Nat.min_eq_left hn, Nat.sub_self, Nat.sub_eq_zero_of_le hn]
  · rw [Nat.min_eq_right hn]

private theorem take_append_take {α : Type} (n : Nat) (l m : List α) :
    (l ++ m.take n).take n = (l ++ m).take n := by
  rw [List.take_append, List.take_append, List.take_take, Nat.min_eq_left (Nat.sub_le n l.length)]

namespace Diagnostics

/-- The sink that keeps the first of the diagnostics, up to the limit, and counts them all. -/
def cut (ds : List Diagnostic) : Diagnostics := ⟨ds.take limit, ds.length⟩

private theorem length_kept_cut (ds : List Diagnostic) : (cut ds).kept.length ≤ limit :=
  List.length_take_le limit ds

/-- No more diagnostics are kept than are counted. -/
theorem kept_cut_le_total (ds : List Diagnostic) : (cut ds).kept.length ≤ (cut ds).total :=
  List.length_take_le' limit ds

theorem foldl_push_cut (l ds : List Diagnostic) : ds.foldl push (cut l) = cut (l ++ ds) := by
  have hkept : (ds.foldl push (cut l)).kept = (l ++ ds).take limit :=
    (kept_foldl_push (cut l) ds (length_kept_cut l)).trans (take_take_append limit l ds)
  have htotal : (ds.foldl push (cut l)).total = (l ++ ds).length :=
    (total_foldl_push (cut l) ds).trans List.length_append.symm
  exact congrArg₂ mk hkept htotal

private theorem push_cut (l : List Diagnostic) (d : Diagnostic) : (cut l).push d = cut (l ++ [d]) :=
  foldl_push_cut l [d]

/-- What the second sink dropped would not have had room in the first one either. -/
theorem extend_cut (l m : List Diagnostic) : (cut l).extend (cut m) = cut (l ++ m) := by
  have hfold : (cut m).kept.foldl push (cut l) = cut (l ++ m.take limit) :=
    foldl_push_cut l (m.take limit)
  have hkept : ((cut l).extend (cut m)).kept = (l ++ m).take limit :=
    (congrArg kept hfold).trans (take_append_take limit l m)
  have htotal : ((cut l).extend (cut m)).total = (l ++ m).length := by
    have hle := kept_cut_le_total m
    calc ((cut l).extend (cut m)).total
        = (cut (l ++ m.take limit)).total + ((cut m).total - (cut m).kept.length) :=
          by rw [extend, hfold]
      _ = l.length + (cut m).kept.length + ((cut m).total - (cut m).kept.length) := by
          rw [cut, List.length_append]
          rfl
      _ = (l ++ m).length := by
          rw [Nat.add_assoc, Nat.add_sub_cancel' hle, List.length_append]
          rfl
  exact congrArg₂ mk hkept htotal

theorem ofErrors_eq_cut {ε : Type} [Reportable ε] (f : SourceFile) (es : List (Located ε)) :
    ofErrors f es = cut (es.map (Diagnostic.ofError f)) := by
  rw [ofErrors_eq, cut, List.length_map]

theorem hasErrors_cut (l : List Diagnostic) : (cut l).hasErrors = true ↔ l ≠ [] := by
  rw [hasErrors, decide_eq_true_iff]
  exact List.length_pos_iff

/-! ### Fillings -/

/-- How a sink is filled: it starts empty, gets one more diagnostic, or all of another sink. -/
inductive Filling where
  | empty
  | push (a : Filling) (d : Diagnostic)
  | extend (a b : Filling)

namespace Filling

def sink : Filling → Diagnostics
  | empty => .empty
  | push a d => a.sink.push d
  | extend a b => a.sink.extend b.sink

/-- All diagnostics that are put in, in order. -/
def pushed : Filling → List Diagnostic
  | empty => []
  | push a d => a.pushed ++ [d]
  | extend a b => a.pushed ++ b.pushed

theorem sink_eq (a : Filling) : a.sink = cut a.pushed := by
  induction a with
  | empty => rfl
  | push a d ih => rw [sink, ih, push_cut, pushed]
  | extend a b iha ihb => rw [sink, iha, ihb, extend_cut, pushed]

/-- The sinks of two fillings of the same diagnostics in the same order are the same. -/
theorem sink_congr {a b : Filling} (h : a.pushed = b.pushed) :
    a.sink = b.sink := by rw [sink_eq, sink_eq, h]

theorem sink_extend_assoc (a b c : Filling) :
    (a.sink.extend b.sink).extend c.sink = a.sink.extend (b.sink.extend c.sink) :=
  sink_congr (a := (a.extend b).extend c) (b := a.extend (b.extend c)) (List.append_assoc _ _ _)

theorem empty_extend_sink (a : Filling) : Diagnostics.empty.extend a.sink = a.sink :=
  sink_congr (a := Filling.empty.extend a) (List.nil_append _)

theorem sink_extend_empty (a : Filling) : a.sink.extend Diagnostics.empty = a.sink :=
  sink_congr (a := a.extend .empty) (List.append_nil _)

end Filling

end Diagnostics

/-! ### The errors of a source -/

namespace SourceFile

variable (f : SourceFile) (firstId : Nat)

/-- What lexing reports. -/
def lexicalErrors : List Diagnostic := (Lexed.ofText f.text).errors.map (.ofError f)

/-- What reading the tokens reports when expressions are numbered from `firstId`. -/
def syntaxErrors : List Diagnostic :=
  (Parsed.ofTokens (Lexed.ofText f.text).tokens firstId).errors.map (.ofError f)

/-- What resolving the names in what could be read reports. -/
def scopeErrors : List Diagnostic :=
  (Resolved.ofStmts
    (Parsed.ofTokens (Lexed.ofText f.text).tokens firstId).program.body).errors.map (.ofError f)

/-- What is reported without running the source, stage by stage. -/
def staticErrors : List Diagnostic :=
  f.lexicalErrors ++ f.syntaxErrors firstId ++ f.scopeErrors firstId

end SourceFile

open Diagnostics (cut limit)

private theorem Analysis.errors_ofFile (f : SourceFile) (i : Nat) :
    (ofFile f i).errors = cut (f.staticErrors i) := by
  have hlexical : Diagnostics.empty.extend (.ofErrors f (Lexed.ofText f.text).errors) =
      cut f.lexicalErrors := by
    rw [Diagnostics.ofErrors_eq_cut]
    exact Diagnostics.extend_cut [] f.lexicalErrors
  have hsyntax : (cut f.lexicalErrors).extend
      (.ofErrors f (Parsed.ofTokens (Lexed.ofText f.text).tokens i).errors) =
        cut (f.lexicalErrors ++ f.syntaxErrors i) := by
    rw [Diagnostics.ofErrors_eq_cut]
    exact Diagnostics.extend_cut f.lexicalErrors (f.syntaxErrors i)
  calc (ofFile f i).errors
      = (f.scopeErrors i).foldl Diagnostics.push (cut (f.lexicalErrors ++ f.syntaxErrors i)) := by
        rw [← hsyntax, ← hlexical]
        rfl
    _ = cut (f.staticErrors i) := Diagnostics.foldl_push_cut _ _

/-- A run ends with static errors if and only if there are some, and reports all of
them in one sink. -/
theorem Session.run_staticErrors_iff (s : Session) (f : SourceFile) (fuel : Nat)
    (es : Diagnostics) :
    (∃ t, s.run fuel f = some (.staticErrors es, t)) ↔
      f.staticErrors s.nextId ≠ [] ∧ es = cut (f.staticErrors s.nextId) := by
  have herrors := Analysis.errors_ofFile f s.nextId
  have hhas : f.Rejected s.nextId ↔ f.staticErrors s.nextId ≠ [] := by
    rw [← Analysis.hasErrors_iff, herrors, Diagnostics.hasErrors_cut]
  constructor
  · rintro ⟨t, hr⟩
    obtain hf | hf := f.rejected_or_accepted s.nextId
    · rw [run_of_rejected hf] at hr
      cases hr
      exact ⟨hhas.mp hf, herrors⟩
    · rw [run_of_accepted hf] at hr
      cases hi : interpret fuel (Analysis.ofFile f s.nextId).program.body (s.entry f) <;>
        rw [hi] at hr <;> cases hr
  · rintro ⟨hne, rfl⟩
    rw [← herrors]
    exact ⟨_, run_of_rejected (hhas.mpr hne)⟩

theorem dumpSource_eq (f : SourceFile) :
    dumpSource f =
      if f.lexicalErrors ++ f.syntaxErrors 0 = [] then
        .ok (Parsed.ofTokens (Lexed.ofText f.text).tokens 0).program.dump
      else .error (cut (f.lexicalErrors ++ f.syntaxErrors 0)) := by
  have hsink : (Diagnostics.ofErrors f (Lexed.ofText f.text).errors).extend
      (.ofErrors f (Parsed.ofTokens (Lexed.ofText f.text).tokens 0).errors) =
        cut (f.lexicalErrors ++ f.syntaxErrors 0) := by
    rw [Diagnostics.ofErrors_eq_cut, Diagnostics.ofErrors_eq_cut]
    exact Diagnostics.extend_cut _ _
  unfold dumpSource
  dsimp only
  rw [hsink]
  by_cases hnone : f.lexicalErrors ++ f.syntaxErrors 0 = []
  · rw [if_pos hnone, if_neg fun h => (Diagnostics.hasErrors_cut _).mp h hnone]
  · rw [if_neg hnone, if_pos ((Diagnostics.hasErrors_cut _).mpr hnone)]

/-- A sink that is filled in any way keeps the first of what was put in, up to the limit, and counts
all of it, so that `extend` is associative on such sinks and the empty sink is neutral. Hence a run
that is stopped by static errors reports the list of the errors of all stages, cut once, and a tree
is refused just for the errors of the first two stages, which are reported in the same way. -/
theorem Diagnostics.filling_cut :
    (∀ a : Filling, a.sink.kept = a.pushed.take limit ∧ a.sink.total = a.pushed.length ∧
      a.sink.kept.length ≤ a.sink.total) ∧
    (∀ a b c : Filling, (a.sink.extend b.sink).extend c.sink =
      a.sink.extend (b.sink.extend c.sink)) ∧
    (∀ a : Filling, empty.extend a.sink = a.sink ∧ a.sink.extend empty = a.sink) ∧
    (∀ (s : Session) (f : SourceFile) (fuel : Nat) (es : Diagnostics),
      let errors := f.lexicalErrors ++ f.syntaxErrors s.nextId ++ f.scopeErrors s.nextId
      (∃ t, s.run fuel f = some (.staticErrors es, t)) ↔
        errors ≠ [] ∧ es.kept = errors.take limit ∧ es.total = errors.length) ∧
    ∀ f : SourceFile,
      let errors := f.lexicalErrors ++ f.syntaxErrors 0
      (∀ es, dumpSource f = .error es ↔
        errors ≠ [] ∧ es.kept = errors.take limit ∧ es.total = errors.length) ∧
      ∀ text, dumpSource f = .ok text ↔
        errors = [] ∧ text = (Parsed.ofTokens (Lexed.ofText f.text).tokens 0).program.dump := by
  have hcut : ∀ (es : Diagnostics) (l : List Diagnostic),
      es = cut l ↔ es.kept = l.take limit ∧ es.total = l.length := fun es l =>
    ⟨fun h => ⟨congrArg kept h, congrArg total h⟩, fun h => congrArg₂ mk h.1 h.2⟩
  refine ⟨fun a => ?_, Filling.sink_extend_assoc,
    fun a => ⟨a.empty_extend_sink, a.sink_extend_empty⟩,
    fun s f fuel es => ?_, fun f => ⟨fun es => ?_, fun text => ?_⟩⟩
  · rw [a.sink_eq]
    exact ⟨rfl, rfl, kept_cut_le_total a.pushed⟩
  · rw [s.run_staticErrors_iff, hcut]
    rfl
  · rw [dumpSource_eq, ← hcut]
    by_cases hnone : f.lexicalErrors ++ f.syntaxErrors 0 = []
    · simp [hnone]
    · simp [hnone, eq_comm]
  · rw [dumpSource_eq]
    by_cases hnone : f.lexicalErrors ++ f.syntaxErrors 0 = []
    · simp [hnone, eq_comm]
    · simp [hnone]

end Lox
