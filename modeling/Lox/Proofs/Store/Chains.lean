import Mathlib.Data.List.Nodup
import Lox.Proofs.Store.Growth
/-!
# Chains

The link of a frame leads to the frame around it, and that of a class to the class that it
inherits from. Where every link leads to something older, following the links comes to an end,
and the searches along them, which look at no more than all frames or all classes, look at
everything up to there.

A chain that comes to an end never comes back to where it was. So a search of the
frames, which looks at no more of them than there are, looks at all that bind anything,
whichever way the links lead.
-/

namespace Lox

/-- What is met on following one link after the other from `a` to the end. -/
inductive Chain (next : Nat → Option Nat) : Nat → List Nat → Prop where
  | last {a : Nat} : next a = none → Chain next a [a]
  | link {a b : Nat} {bs : List Nat} : next a = some b → Chain next b bs → Chain next a (a :: bs)

namespace Chain

variable {next next' : Nat → Option Nat} {a b : Nat} {as bs : List Nat}

/-- Well-founded links come to an end. -/
theorem exists_of_wellFounded (h : WellFounded fun b a => next a = some b) (a : Nat) :
    ∃ as, Chain next a as := by
  induction a using h.induction with
  | h a ih =>
    cases hnext : next a with
    | none => exact ⟨[a], .last hnext⟩
    | some b =>
      obtain ⟨bs, hbs⟩ := ih b hnext
      exact ⟨a :: bs, .link hnext hbs⟩

theorem wellFounded_of_lt (rank : Nat → Nat) (h : ∀ a b, next a = some b → rank b < rank a) :
    WellFounded fun b a => next a = some b :=
  Subrelation.wf (h _ _) (InvImage.wf rank Nat.lt_wfRel.wf)

/-- Links that lead downward come to an end. -/
theorem exists_of_lt (h : ∀ a b, next a = some b → b < a) (a : Nat) : ∃ as, Chain next a as :=
  exists_of_wellFounded (wellFounded_of_lt id h) a

/-- There is one way to follow the links. -/
theorem unique (hc : Chain next a as) (hc' : Chain next a bs) : as = bs := by
  induction hc generalizing bs with
  | last hend =>
    cases hc' with
    | last => rfl
    | link hnext =>
      rw [hend] at hnext
      cases hnext
  | link hnext _ ih =>
    cases hc' with
    | last hend =>
      rw [hnext] at hend
      cases hend
    | link hnext' hbs' =>
      obtain rfl := Option.some.inj (hnext.symm.trans hnext')
      rw [ih hbs']

/-- The chain from something on a chain is the end of that chain. -/
theorem exists_suffix (hc : Chain next a as) (hb : b ∈ as) : ∃ bs, Chain next b bs ∧ bs <:+ as := by
  induction hc with
  | last hend =>
    obtain rfl := List.mem_singleton.mp hb
    exact ⟨_, .last hend, List.suffix_refl _⟩
  | link hnext hbs ih =>
    obtain rfl | hb := List.mem_cons.mp hb
    · exact ⟨_, .link hnext hbs, List.suffix_refl _⟩
    · obtain ⟨cs, hcs, hsuffix⟩ := ih hb
      exact ⟨cs, hcs, hsuffix.trans (List.suffix_cons _ _)⟩

/-- A chain never comes back to where it was. -/
theorem nodup (hc : Chain next a as) : as.Nodup := by
  induction hc with
  | last => exact List.nodup_singleton _
  | link hnext hbs ih =>
    refine List.nodup_cons.mpr ⟨fun ha => ?_, ih⟩
    obtain ⟨cs, hcs, hsuffix⟩ := hbs.exists_suffix ha
    -- The chain would be the end of what comes after its first place.
    have hlen := hsuffix.length_le
    rw [hcs.unique (.link hnext hbs)] at hlen
    exact Nat.not_succ_le_self _ hlen

/-- The link of each place leads to the next one. -/
theorem next_eq_getElem? (hc : Chain next a as) {i : Nat} (hb : as[i]? = some b) :
    next b = as[i + 1]? := by
  induction hc generalizing i with
  | last hend =>
    cases i with
    | zero =>
      obtain rfl := Option.some.inj hb
      exact hend
    | succ i => cases hb
  | link hnext hbs ih =>
    cases i with
    | zero =>
      obtain rfl := Option.some.inj hb
      rw [hnext]
      cases hbs <;> rfl
    | succ i => exact ih hb

theorem le_of_mem (h : ∀ a b, next a = some b → b < a) (hc : Chain next a as) (hb : b ∈ as) :
    b ≤ a := by
  induction hc with
  | last => exact Nat.le_of_eq (List.mem_singleton.mp hb)
  | link hnext _ ih =>
    obtain rfl | hb := List.mem_cons.mp hb
    · exact Nat.le_refl _
    · exact Nat.le_trans (ih hb) (Nat.le_of_lt (h _ _ hnext))

theorem pairwise (h : ∀ a b, next a = some b → b < a) (hc : Chain next a as) :
    as.Pairwise (· > ·) := by
  induction hc with
  | last => exact List.pairwise_singleton _ _
  | link hnext hbs ih =>
    exact List.pairwise_cons.mpr ⟨fun b hb => Nat.lt_of_le_of_lt (hbs.le_of_mem h hb)
      (h _ _ hnext), ih⟩

theorem length_le (h : ∀ a b, next a = some b → b < a) (hc : Chain next a as) :
    as.length ≤ a + 1 := by
  induction hc with
  | last => exact Nat.le_add_left 1 _
  | link hnext _ ih => exact Nat.succ_le_succ (Nat.le_trans ih (h _ _ hnext))

/-- The chain ends where no link leads on. -/
theorem getLast?_eq (hc : Chain next a as) : ∃ b ∈ as, as.getLast? = some b ∧ next b = none := by
  induction hc with
  | last hnext => exact ⟨_, List.mem_singleton_self _, rfl, hnext⟩
  | link _ hbs ih =>
    obtain ⟨b, hb, hlast, hend⟩ := ih
    refine ⟨b, List.mem_cons_of_mem _ hb, ?_, hend⟩
    rw [List.getLast?_cons, hlast]
    rfl

end Chain

theorem findSome?_congr {α β : Type} {g g' : α → Option β} {l : List α} (h : ∀ a ∈ l, g a = g' a) :
    l.findSome? g = l.findSome? g' := by
  induction l with
  | nil => rfl
  | cons a l ih =>
    obtain ⟨ha, hl⟩ := List.forall_mem_cons.mp h
    rw [List.findSome?_cons, List.findSome?_cons, ha, ih hl]

namespace Store

variable {s : Store} {f g : FrameId} {fs : List FrameId} {c : ClassId} {ks : List ClassId}
  {x : String}

/-! ### Frames -/

theorem ancestor?_eq_getElem? (h : Chain s.enclosing? f fs) (d : Nat) :
    s.ancestor? d f = fs[d]? := by
  induction h generalizing d with
  | last hend =>
    cases d with
    | zero => rfl
    | succ d =>
      rw [ancestor?, hend]
      rfl
  | link hnext _ ih =>
    cases d with
    | zero => rfl
    | succ d =>
      rw [ancestor?, hnext, List.getElem?_cons_succ]
      exact ih d

private theorem nearestIn?_eq_find? (h : Chain s.enclosing? f fs) (x : String) (n : Nat) :
    s.nearestIn? x n f = (fs.take n).find? fun g => (s.bound? g x).isSome := by
  induction h generalizing n with
  | last hend =>
    cases n with
    | zero => rfl
    | succ n =>
      rw [nearestIn?, hend, List.take_succ_cons, List.take_nil, List.find?_cons, List.find?_nil]
      cases s.bound? _ x <;> rfl
  | link hnext _ ih =>
    cases n with
    | zero => rfl
    | succ n =>
      rw [nearestIn?, hnext, List.take_succ_cons, List.find?_cons, Option.bind_some, ih]
      cases s.bound? _ x <;> rfl

/-- A frame that is there comes before as many places of the chain as there are frames. -/
theorem lt_size_of_getElem? (h : Chain s.enclosing? f fs) {i : Nat} (hi : fs[i]? = some g)
    (hg : g < s.frames.size) : i < s.frames.size := by
  -- The places up to `i` hold different frames, and all of these are there.
  have hsubset : fs.take (i + 1) ⊆ List.range s.frames.size := by
    intro e he
    obtain ⟨j, hj⟩ := List.mem_iff_getElem?.mp he
    rw [List.getElem?_take] at hj
    split at hj
    · rename_i hlt
      rw [List.mem_range]
      obtain rfl | hlt := Nat.eq_or_lt_of_le (Nat.le_of_lt_succ hlt)
      · obtain rfl := Option.some.inj (hi.symm.trans hj)
        exact hg
      · have hlast : j + 1 < fs.length :=
          Nat.lt_of_le_of_lt hlt (List.getElem?_eq_some_iff.mp hi).1
        exact lt_of_enclosing? ((h.next_eq_getElem? hj).trans (List.getElem?_eq_getElem hlast))
    · cases hj
  have hlength := (h.nodup.sublist (List.take_sublist (i + 1) fs)).length_le_of_subset hsubset
  have hi' := (List.getElem?_eq_some_iff.mp hi).1
  rw [List.length_take, List.length_range] at hlength
  omega

/-- A search looks at all frames of the chain that bind anything. -/
theorem nearest?_eq_find? (h : Chain s.enclosing? f fs) (x : String) :
    s.nearest? f x = fs.find? fun g => (s.bound? g x).isSome := by
  have hbeyond : (fs.drop s.frames.size).find? (fun g => (s.bound? g x).isSome) = none := by
    refine List.find?_eq_none.mpr fun g hg hbound => ?_
    obtain ⟨i, hi⟩ := List.mem_iff_getElem?.mp hg
    rw [List.getElem?_drop] at hi
    exact Nat.not_lt.mpr (Nat.le_add_right _ i) (lt_size_of_getElem? h hi (lt_of_bound? hbound))
  rw [nearest?, nearestIn?_eq_find? h, ← Option.or_none (o := (fs.take _).find? _), ← hbeyond,
    ← List.find?_append, List.take_append_drop]

theorem find?_bind_bound? (s : Store) (x : String) (fs : List FrameId) :
    (fs.find? fun g => (s.bound? g x).isSome).bind (s.bound? · x) =
      fs.findSome? (s.bound? · x) := by
  induction fs with
  | nil => rfl
  | cons g fs ih =>
    rw [List.find?_cons, List.findSome?_cons]
    cases hg : s.bound? g x with
    | none => exact ih
    | some v => exact hg

/-! ### Classes -/

/-- The class that a class inherits from. -/
def superclass? (s : Store) (c : ClassId) : Option ClassId := (s.classes[c]?).bind Class.superclass

/-- The method with the name in the class itself. -/
def ownMethod? (s : Store) (x : String) (c : ClassId) : Option Closure :=
  (s.classes[c]?).bind (·.methods.find? x)

theorem methodIn?_succ (s : Store) (x : String) (n : Nat) (c : ClassId) :
    s.methodIn? x (n + 1) c = (s.ownMethod? x c).or ((s.superclass? c).bind (s.methodIn? x n)) := by
  rw [methodIn?, ownMethod?, superclass?]
  cases s.classes[c]? with
  | none => rfl
  | some cls => cases hm : cls.methods.find? x <;> simp [hm]

/-- A search that looks at enough classes looks at all of the chain. -/
theorem methodIn?_eq_findSome? (h : Chain s.superclass? c ks) (x : String) {n : Nat}
    (hn : ks.length ≤ n) : s.methodIn? x n c = ks.findSome? (s.ownMethod? x) := by
  induction h generalizing n with
  | last hend =>
    obtain ⟨n, rfl⟩ := Nat.exists_eq_add_one_of_ne_zero (Nat.ne_of_gt hn)
    rw [methodIn?_succ, hend, List.findSome?_cons]
    cases s.ownMethod? x _ <;> rfl
  | link hnext _ ih =>
    obtain ⟨n, rfl⟩ :=
      Nat.exists_eq_add_one_of_ne_zero (Nat.ne_of_gt (Nat.lt_of_lt_of_le (Nat.succ_pos _) hn))
    rw [methodIn?_succ, hnext, List.findSome?_cons, Option.bind_some,
      ih (Nat.le_of_succ_le_succ hn)]
    cases s.ownMethod? x _ <;> rfl

end Store

end Lox
