import Std.Data.TreeMap.Lemmas
import Lox.Proofs.Scoping.Sound
/-!
# Recorded distances

Every expression of a program has a number of its own, so the distance that the walk records in
one visit is there at the end, and those of an earlier program stay when the distances of a
later one are added.
-/

namespace Lox

namespace Distances

@[simp] theorem get?_empty (i : Nat) : empty.get? i = none := by
  simp [empty, get?]

theorem get?_insert (d : Distances) (i j n : Nat) :
    (d.insert i n).get? j = if i = j then some n else d.get? j := by
  simp [get?, insert, Std.TreeMap.getElem?_insert]

private theorem get?_foldl_insert (d : Distances) (l : List (Nat × Nat)) (i : Nat)
    (hl : l.Pairwise fun p q => p.1 ≠ q.1) :
    (∀ n, (i, n) ∈ l → (l.foldl (fun d p => d.insert p.1 p.2) d).get? i = some n) ∧
      ((∀ n, (i, n) ∉ l) → (l.foldl (fun d p => d.insert p.1 p.2) d).get? i = d.get? i) := by
  induction l generalizing d with
  | nil => simp
  | cons p l ih =>
    obtain ⟨hp, hl⟩ := List.pairwise_cons.mp hl
    obtain ⟨hin, hout⟩ := ih (d.insert p.1 p.2) hl
    rw [List.foldl_cons]
    refine ⟨fun n hn => ?_, fun hn => ?_⟩
    · rcases List.mem_cons.mp hn with rfl | hn
      · rw [hout fun m hm => hp _ hm rfl, get?_insert, if_pos rfl]
      · exact hin n hn
    · rw [hout fun m hm => hn m (List.mem_cons_of_mem _ hm), get?_insert, if_neg]
      intro h
      exact hn p.2 (by rw [← h]; exact List.mem_cons_self)

/-- The distances that are added count where there are both. -/
theorem get?_extend (d e : Distances) (i : Nat) :
    (d.extend e).get? i = (e.get? i).or (d.get? i) := by
  have hd : e.map.toList.Pairwise fun p q => p.1 ≠ q.1 := by
    apply (Std.TreeMap.distinct_keys_toList (t := e.map)).imp
    simp
  obtain ⟨hin, hout⟩ := get?_foldl_insert d e.map.toList i hd
  rw [extend, Std.TreeMap.foldl_eq_foldl_toList]
  cases h : e.get? i with
  | some n => exact hin n (Std.TreeMap.mem_toList_iff_getElem?_eq_some.mpr h)
  | none =>
    apply hout
    intro n hn
    have hs : e.get? i = some n := Std.TreeMap.mem_toList_iff_getElem?_eq_some.mp hn
    rw [h] at hs
    cases hs

end Distances

namespace Visit

/-- What is known of a visit to a program without errors, when `d` are the recorded distances. -/
structure Sound (d : Distances) (v : Visit) : Prop extends v.Faultless where
  inScope : v.Scoped
  recorded : ∀ i, v.id? = some i → d.get? i = v.distance?

theorem get?_record (v : Visit) (d : Distances) (i : Nat) :
    (v.record d).get? i = if v.id? = some i then v.distance?.or (d.get? i) else d.get? i := by
  unfold record id? Sight.id?
  cases v.sight with
  | expr e =>
    cases v.distance? with
    | none => simp
    | some n => by_cases h : e.site.id = i <;> simp [Distances.get?_insert, h]
  | print | declaration | inheritance | branch | returning => simp

end Visit

namespace Findings

theorem get?_foldl_of_notMem (f : Findings) (vs : List Visit) {i : Nat}
    (h : i ∉ vs.filterMap Visit.id?) : (vs.foldl note f).distances.get? i = f.distances.get? i := by
  induction vs generalizing f with
  | nil => rfl
  | cons v vs ih =>
    rw [List.foldl_cons]
    cases hv : v.id? with
    | none =>
      rw [List.filterMap_cons_none hv] at h
      rw [ih _ h, note, Visit.get?_record, hv, if_neg (by simp)]
    | some j =>
      rw [List.filterMap_cons_some hv, List.mem_cons, not_or] at h
      rw [ih _ h.2, note, Visit.get?_record, hv, if_neg fun he => h.1 (Option.some.inj he).symm]

/-- What is recorded in one visit stays, if no other visit is to an expression
with the same number. -/
theorem get?_foldl (f : Findings) {vs : List Visit} (hd : (vs.filterMap Visit.id?).Nodup)
    {v : Visit} (hv : v ∈ vs) {i : Nat} (hi : v.id? = some i) (hf : f.distances.get? i = none) :
    (vs.foldl note f).distances.get? i = v.distance? := by
  induction vs generalizing f with
  | nil => cases hv
  | cons u vs ih =>
    rw [List.foldl_cons]
    rcases List.mem_cons.mp hv with rfl | hv
    · rw [List.filterMap_cons_some hi, List.nodup_cons] at hd
      rw [get?_foldl_of_notMem _ _ hd.1, note, Visit.get?_record, if_pos hi, hf, Option.or_none]
    · have hne : u.id? ≠ some i := by
        intro hu
        rw [List.filterMap_cons_some hu, List.nodup_cons] at hd
        exact hd.1 (List.mem_filterMap.mpr ⟨v, hv, hi⟩)
      have hd' : (vs.filterMap Visit.id?).Nodup :=
        hd.sublist ((List.sublist_cons_self u vs).filterMap _)
      refine ih _ hd' hv ?_
      rw [note, Visit.get?_record, if_neg hne, hf]

private theorem errors_foldl (f : Findings) (vs : List Visit) :
    (vs.foldl note f).errors = f.errors ++ vs.flatMap Visit.errors := by
  induction vs generalizing f with
  | nil => simp
  | cons v vs ih => simp [ih, note]

end Findings

/-! ### Whole programs -/

theorem Context.settled_start : Walk.start.context.Settled where
  outer _ hs := by cases hs
  receiver h := absurd rfl h
  parent h := by cases h
  inner _ hs := by cases hs

namespace Resolved

theorem eq_findings (body : List Stmt) :
    ofStmts body =
      ⟨((Stmt.visitsAll .start body).foldl Findings.note ⟨.empty, []⟩).distances,
        (Stmt.visitsAll .start body).flatMap Visit.errors⟩ := by
  have h := Stmt.findings_resolveAll .start body
  have hs : Walk.start.findings = ⟨.empty, []⟩ := rfl
  rw [hs] at h
  have he := congrArg Findings.errors h
  rw [Findings.errors_foldl, List.nil_append] at he
  rw [ofStmts, mk.injEq]
  exact ⟨congrArg Findings.distances h, he⟩

/-- In a proper program without errors whose expressions have different numbers
every visit is sound. -/
theorem sound_visits {body : List Stmt} (hp : ∀ v ∈ Stmt.visitsAll .start body, v.sight.Proper)
    (hd : ((Stmt.visitsAll .start body).filterMap Visit.id?).Nodup)
    (he : (ofStmts body).errors = []) :
    ∀ v ∈ Stmt.visitsAll .start body, v.Sound (ofStmts body).distances := by
  rw [eq_findings] at he ⊢
  have hf : ∀ v ∈ Stmt.visitsAll .start body, v.Faultless := fun v hv =>
    ⟨hp v hv, List.flatMap_eq_nil_iff.mp he v hv⟩
  intro v hv
  exact {
    toFaultless := hf v hv
    inScope := Stmt.scoped_visitsAll Context.settled_start body hf v hv
    recorded := fun i hi => Findings.get?_foldl _ hd hv hi (Distances.get?_empty i) }

end Resolved

end Lox
