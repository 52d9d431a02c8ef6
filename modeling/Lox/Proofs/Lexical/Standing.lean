import Lox.Proofs.Lexical.Lockstep
import Lox.Proofs.Scoping.Agreement
/-!
# Standing at a place of the text

Two runs stand at one place of a program when their states are linked, the frames of the one mirror
the scopes of the place, and the other sees the cells of their variables. Variables then mean the
same to both, and a declaration takes both to the place after it.
-/

namespace Lox

open Lexical

/-- Whether a place is inside of a scope exactly if one is open. -/
def Lexical.Place.Fits : Place → List Scope → Prop
  | .top, [] => True
  | .within _, _ :: _ => True
  | _, _ => False

theorem Lexical.Place.Fits.cons {p : Place} {c d : Scope} {cs ds : List Scope}
    (h : p.Fits (c :: cs)) : p.Fits (d :: ds) := by
  cases p with
  | top => exact h
  | within l => trivial

structure Stand (V : Visit → Prop) (D : Distances) (κ : Naming) (w : Watch) (v : World)
    (cs : List Scope) (p : Place) : Prop where
  sound : w.Sound V D
  mirrors : w.machine.store.Mirrors w.machine.frame cs
  linked : w.machine.Linked V κ v
  sees : κ.Sees w.machine.store w.machine.frame cs p.locals
  place : p.Fits cs

private theorem Store.define_define (s : Store) (f : FrameId) (x : String) (a b : Value) :
    (s.define f x a).define f x b = s.define f x b := by
  have hframes : ((s.define f x a).define f x b).frames = (s.define f x b).frames := by
    apply Array.ext_getElem?
    intro i
    simp only [define, Array.getElem?_modify]
    by_cases hi : f = i
    · simp [hi, Table.insert_insert, Function.comp_def]
    · simp [hi]
  exact congrArg (fun frames => { s with frames := frames }) hframes

namespace Stand

variable {V : Visit → Prop} {D : Distances} {κ ν : Naming} {w w' : Watch} {v v' : World}
  {cs : List Scope} {c : Context} {p : Place} {x : String}

/-- After something that leaves the scopes as they were the place is the same. -/
theorem back (h : Stand V D κ w v cs p) {K : FrameId → Prop} (hk : w.Keeps V D K w')
    (hm : w'.machine.store.Mirrors w'.machine.frame cs) (hν : ν.Extends κ)
    (hl : w'.machine.Linked V ν v') : Stand V D ν w' v' cs p where
  sound := hk.sound
  mirrors := hm
  linked := hl
  sees := by
    rw [hk.machine.frame]
    exact h.sees.mono hν hk.machine.grows
  place := h.place

/-- In particular after something that does not run in the current frame. -/
theorem keeps (h : Stand V D κ w v cs p) {K : FrameId → Prop} (hk : w.Keeps V D K w')
    (hf : K w.machine.frame) (hν : ν.Extends κ) (hl : w'.machine.Linked V ν v') :
    Stand V D ν w' v' cs p :=
  h.back hk (hk.machine.mirrors h.sound.store h.mirrors hf) hν hl

theorem of_none (h : Stand V D κ w v cs p) : Stand V D κ w v (defined none cs) p := by
  rwa [defined_none]

/-- An expression gets to work of its own. -/
theorem note (h : Stand V D κ w v c.scopes p) {e : Expr} (he : V ⟨.expr e, c⟩) :
    Stand V D κ { w with moments := ⟨.node e, w.machine⟩ :: w.moments } v c.scopes p where
  sound := h.sound.note ⟨h.sound.store, h.sound.distances, c, he, h.mirrors⟩
  mirrors := h.mirrors
  linked := h.linked
  sees := h.sees
  place := h.place

/-! ### Variables -/

/-- What has a distance is a cell of the table, and what has none is global in both. -/
theorem cases_nearest (h : Stand V D κ w v c.scopes p) (hx : c.status? x ≠ some false) :
    c.nearest? x = none ∧ p.locals.find? x = none ∨
      ∃ d g e, c.nearest? x = some d ∧ w.machine.store.ancestor? d w.machine.frame = some g ∧
        κ g x = some e ∧ p.locals.find? x = some e := by
  obtain ⟨cs, k, q⟩ := c
  cases hn : (⟨cs, k, q⟩ : Context).nearest? x with
  | none => exact .inl ⟨rfl, (h.sees x).eq_none hn⟩
  | some d =>
    obtain ⟨g, e, hg, he, hl⟩ := (h.sees x).nearest hn (Context.status?_of_nearest? hn hx)
    exact .inr ⟨d, g, e, rfl, hg, he, hl⟩

/-- What lies at its distance is in its cell. -/
theorem getAt?_eq (h : Stand V D κ w v c.scopes p) {d : Nat} (hd : c.nearest? x = some d)
    (hx : c.status? x = some true) :
    ∃ a, w.machine.store.getAt? w.machine.frame d x = some a ∧ v.valueOf? p.locals x = some a := by
  have hne : c.status? x ≠ some false := by simp [hx]
  obtain ⟨hn, -⟩ | ⟨e, g, r, hn, hg, hr, hl⟩ := h.cases_nearest hne
  · rw [hn] at hd
    cases hd
  · obtain rfl : e = d := Option.some.inj (hn.symm.trans hd)
    obtain ⟨a, ha⟩ := Option.isSome_iff_exists.mp (h.linked.store.isSome_bound? hr)
    refine ⟨a, ?_, ?_⟩
    · rw [Store.getAt?, hg]
      exact ha
    · rw [World.valueOf?, hl]
      exact (h.linked.store.cells g x r hr).2.symm.trans ha

/-- A name means the same to both. -/
theorem valueOf?_eq (h : Stand V D κ w v c.scopes p) {id : Nat} (hd : D.get? id = c.nearest? x)
    (hx : c.status? x ≠ some false) : v.valueOf? p.locals x = Run.valueOf? w.machine id x := by
  rw [Run.valueOf?, h.sound.distances, hd]
  obtain ⟨hn, hl⟩ | ⟨d, -, -, hn, -, -, -⟩ := h.cases_nearest hx
  · rw [hn, World.valueOf?, hl]
    dsimp only
    rw [Store.get?_globals h.sound.store.root h.sound.store.size, h.linked.store.globals]
  · obtain ⟨a, ha, hv⟩ := h.getAt?_eq hn (Context.status?_of_nearest? hn hx)
    rw [hn, hv]
    exact ha.symm

theorem read (h : Stand V D κ w v c.scopes p) {id : Nat} (hd : D.get? id = c.nearest? x)
    (hx : c.status? x ≠ some false) (span : Span) :
    Lockstep V κ (Host.lift (Run.lookUp id x span)) (Lexical.read p.locals x span) w v
      fun _ a w' b v' => b = a ∧ w' = w ∧ v' = v := by
  have hfault := Lockstep.orFault h.linked (Run.valueOf? w.machine id x) (.undefinedVariable x) span
  have hlift : (Host.lift (Run.lookUp id x span) : Watched Value) w =
      (Host.lift (Run.orFault (Run.valueOf? w.machine id x) (.undefinedVariable x) span) : Watched
        Value) w := by
    rw [Watched.lift_eq, Watched.lift_eq, Run.lookUp_eq]
  rw [← h.valueOf?_eq hd hx] at hfault hlift
  unfold Lockstep at hfault ⊢
  rw [hlift]
  exact hfault

/-- An assignment gives one variable the same value in both, or fails in both. -/
theorem assign (h : Stand V D κ w v c.scopes p) {id : Nat} (hd : D.get? id = c.nearest? x)
    (hx : c.status? x ≠ some false) (a : Value) (span : Span) :
    Lockstep V κ (Host.lift (Run.assign id x a span)) (Lexical.assign p.locals x a span) w v
      fun _ _ _ _ _ => True := by
  have hl := h.linked
  obtain ⟨hn, hnone⟩ | ⟨d, g, e, hn, hg, he, hsome⟩ := h.cases_nearest hx
  · have hglobal : w.machine.store.nearest? globals x =
        if v.globals.contains x then some globals else none := by
      rw [Store.nearest?_globals h.sound.store.root h.sound.store.size, hl.store.globals]
      rfl
    by_cases hb : v.globals.contains x = true
    · rw [if_pos hb] at hglobal
      have hrun : (Host.lift (Run.assign id x a span) : Watched Unit) w =
          .done () { w with machine.store := w.machine.store.define globals x a } := by
        simp only [Watched.lift_eq, Run.assign, h.sound.distances, hd, hn, hglobal]
      have hworld : Lexical.assign p.locals x a span v = .done () (v.setGlobal x a) := by
        simp only [Lexical.assign, World.set?, hnone, hb, if_true]
      exact .of_done hrun hworld (.refl κ)
        (hl.withStore (hl.store.setGlobal h.sound.store.size x a) rfl) trivial
    · rw [if_neg hb] at hglobal
      have hrun : (Host.lift (Run.assign id x a span) : Watched Unit) w =
          .fault ⟨.undefinedVariable x, span⟩ w := by
        simp only [Watched.lift_eq, Run.assign, h.sound.distances, hd, hn, hglobal]
      have hworld : Lexical.assign p.locals x a span v = .fault ⟨.undefinedVariable x, span⟩ v := by
        simp only [Lexical.assign, World.set?, hnone, if_neg hb]
      exact .of_fault hrun hworld hl.output
  · have hat : w.machine.store.bindingAt? w.machine.frame d x = some g := by
      rw [Store.bindingAt?, hg, Option.filter_some, if_pos (hl.store.isSome_bound? he)]
    have hrun : (Host.lift (Run.assign id x a span) : Watched Unit) w =
        .done () { w with machine.store := w.machine.store.define g x a } := by
      simp only [Watched.lift_eq, Run.assign, h.sound.distances, hd, hn, hat]
    have hworld : Lexical.assign p.locals x a span v =
        .done () { v with cells := v.cells.setIfInBounds e a } := by
      simp only [Lexical.assign, World.set?, hsome]
    exact .of_done hrun hworld (.refl κ) (hl.withStore (hl.store.setCell he a) rfl) trivial

/-! ### Declarations -/

/-- The frame of a place with scopes is not that of the global variables. -/
theorem frame_ne_globals {d : Scope} {ds : List Scope} (h : Stand V D κ w v (d :: ds) p) :
    w.machine.frame ≠ globals := by
  obtain ⟨-, g, hg, -⟩ := h.mirrors.covers
  rintro hf
  rw [hf, h.sound.store.root] at hg
  cases hg

theorem lt_size (h : Stand V D κ w v cs p) : w.machine.frame < w.machine.store.frames.size :=
  h.mirrors.covers.lt_size h.sound.store.size

/-- Where a name is declared and not yet defined both stand as before. -/
theorem declaring {u : Walk} {x : Ident} (h : Stand V D κ w v u.scopes p)
    (hx : (⟨.declaration x, u.context⟩ : Visit).errors = []) :
    Stand V D κ w v (u.declare x).scopes p := by
  have hm := h.mirrors.declare_walk hx
  obtain ⟨sound, -, linked, sees, place⟩ := h
  unfold Walk.declare at hm ⊢
  split at hm
  · rename_i hs
    exact ⟨sound, hm, linked, sees, place⟩
  · rename_i c cs hs
    have hnew : ¬ c.contains x.name = true := by
      simp [Table.contains, u.find?_of_declaration hx hs]
    rw [hs] at sees place
    rw [if_neg hnew] at hm ⊢
    exact ⟨sound, hm, linked, sees.declare x.name, place.cons⟩

/-- A name that is declared where it is new is a new variable in both. -/
theorem declare (h : Stand V D κ w v cs p) (hx : Plain x)
    (hnew : ∀ d ds, cs = d :: ds → d.find? x = none) (a : Value) :
    ∃ ν q v', Lexical.declare p x a v = .done q v' ∧ ν.Extends κ ∧
      Stand V D ν { w with machine.store := w.machine.store.define w.machine.frame x a } v'
        (defined (some x) cs) q := by
  have hl := h.linked
  have hsound :
      Watch.Sound V D { w with machine.store := w.machine.store.define w.machine.frame x a } :=
    ⟨h.sound.store.define hx _ _, h.sound.distances, h.sound.moments⟩
  have hmirrors := h.mirrors.define h.lt_size x a
  have hplace := h.place
  cases cs with
  | nil =>
    cases p with
    | within l => cases hplace
    | top =>
      have hf : w.machine.frame = globals := h.mirrors.covers
      refine ⟨κ, .top, v.setGlobal x a, rfl, .refl κ, hsound, hmirrors, ?_,
        fun y => h.sees y, trivial⟩
      rw [hf]
      exact hl.withStore (hl.store.setGlobal h.sound.store.size x a) rfl
  | cons d ds =>
    cases p with
    | top => cases hplace
    | within l =>
      have hunbound : w.machine.store.bound? w.machine.frame x = none := by
        cases hb : w.machine.store.bound? w.machine.frame x with
        | none => rfl
        | some b =>
          have ht := h.mirrors.exact x (by simp [hb])
          rw [hnew d ds rfl] at ht
          cases ht
      have hκ := Naming.extends_add (hl.store.eq_none hunbound) v.cells.size
      refine ⟨_, .within (l.insert x v.cells.size), (v.fresh a).2, rfl, hκ, hsound, hmirrors,
        ?_, ?_, trivial⟩
      · exact hl.withStore (hl.store.declare h.frame_ne_globals h.lt_size hunbound a) rfl
      · exact h.sees.define hκ (.define _ _ x a) (Naming.add_self _ _ _ _)

/-- The variable that was declared last gets a value. -/
theorem redefine (h : Stand V D κ w v (defined (some x) cs) p) (hx : Plain x)
    (hb : (w.machine.store.bound? w.machine.frame x).isSome) (a : Value) (span : Span) :
    ∃ v', Lexical.assign p.locals x a span v = .done () v' ∧
      Stand V D κ { w with machine.store := w.machine.store.define w.machine.frame x a } v'
        (defined (some x) cs) p := by
  have hl := h.linked
  have hsound :
      Watch.Sound V D { w with machine.store := w.machine.store.define w.machine.frame x a } :=
    ⟨h.sound.store.define hx _ _, h.sound.distances, h.sound.moments⟩
  have hmirrors := h.mirrors.define h.lt_size x a
  rw [defined_defined] at hmirrors
  have hsees := h.sees.mono (.refl κ) (.redefine (K := fun _ => True) a hb)
  cases cs with
  | nil =>
    have hf : w.machine.frame = globals := h.mirrors.covers
    have hnone : p.locals.find? x = none := h.sees x
    have hcontains : v.globals.contains x = true := by
      rw [Table.contains, ← hl.store.globals, ← hf]
      exact hb
    refine ⟨v.setGlobal x a, ?_, hsound, hmirrors, ?_, hsees, h.place⟩
    · simp only [Lexical.assign, World.set?, hnone, hcontains, if_true]
    · rw [hf]
      exact hl.withStore (hl.store.setGlobal h.sound.store.size x a) rfl
  | cons d ds =>
    obtain ⟨e, he, hcell⟩ : ∃ e, p.locals.find? x = some e ∧ κ w.machine.frame x = some e := by
      have hfinds := h.sees x
      unfold defined Naming.Finds at hfinds
      rw [Table.find?_insert_self] at hfinds
      obtain ⟨e, he⟩ := Option.isSome_iff_exists.mp hfinds.1
      exact ⟨e, he, hfinds.2.trans he⟩
    refine ⟨{ v with cells := v.cells.setIfInBounds e a }, ?_, hsound, hmirrors, ?_, hsees, h.place⟩
    · simp only [Lexical.assign, World.set?, he]
    · exact hl.withStore (hl.store.setCell hcell a) rfl

/-! ### Printing -/

/-- Both print the same, or neither has room for it. -/
theorem print (h : Stand V D κ w v cs p) (a : Value) (span : Span) :
    Lockstep V κ (Host.lift do Run.printLine (← Run.ask (·.store.text a)) span)
      (Lexical.printLine (v.text a) span) w v fun ν _ w' _ v' => Stand V D ν w' v' cs p := by
  have hl := h.linked
  have hask : (do Run.printLine (← Run.ask (·.store.text a)) span : Run Unit) w.machine =
      Run.printLine (w.machine.store.text a) span w.machine := rfl
  rw [hl.store.text]
  unfold Lockstep
  rw [Watched.lift_eq, hask]
  unfold Run.printLine Lexical.printLine
  rw [hl.output]
  rcases w.machine.output.write (w.machine.store.text a ++ "\n") with ⟨fits, o⟩
  cases fits with
  | false => exact .fault rfl
  | true =>
    have hl' : Machine.Linked V κ { w.machine with output := o } { v with output := o } :=
      ⟨hl.store.withRest _ _ _, hl.depth, hl.maxDepth, rfl, hl.clock, hl.readings⟩
    exact .done ⟨κ, .refl κ, hl', ⟨h.sound.store, h.sound.distances, h.sound.moments⟩,
      h.mirrors, hl', h.sees,
      h.place⟩

end Stand

/-! ### Functions and classes -/

section Declarations

variable {V : Visit → Prop} {D : Distances} {κ : Naming} {s : Store} {w : Watch} {v : World}
  {p : Place}

theorem Closure.Matches.toVisited {c : Closure} {r : Function} {inner : List Scope → List Scope}
    (h : c.Matches V κ s inner r) : c.Visited V s inner := by
  obtain ⟨u, kind, cs, hu, hc, -, hv⟩ := h.visited
  exact ⟨u, kind, cs, hu, hc, hv⟩

/-- The methods of a class see the same variables in both. -/
theorem Class.linked_methodTable {f : FrameId} {cs : List Scope} {l : Locals} {u : Walk}
    (hu : u.scopes = Table.empty.insert "this" true :: cs) {ms : List FunctionDecl}
    (hV : ∀ v ∈ FunctionDecl.visitsMethods u ms, V v)
    (hc : s.Covers f cs) (hl : κ.Sees s f cs l) (name : String) (parent : Option ClassId) :
    Class.Linked V κ s ⟨name, parent, Run.methodTable f ms⟩ ⟨name, parent,
      Lexical.methodTable ms, l⟩ := by
  refine ⟨rfl, rfl, fun x => ?_⟩
  have hfind := find?_methodTable f ms x
  dsimp only
  cases hd : (Lexical.methodTable ms).find? x with
  | none =>
    rw [hd] at hfind
    exact .inl ⟨hfind, rfl⟩
  | some d =>
    rw [hd] at hfind
    obtain ⟨e, he, hed⟩ := mem_of_find?_methodTable hfind
    obtain rfl : d = e := congrArg Closure.decl hed
    obtain ⟨t, ht, htv⟩ := FunctionDecl.exists_visits_of_mem (w := u) he
    refine .inr ⟨_, d, hfind, rfl, rfl, rfl, t, _, cs, ?_, hc, hl, fun v hv => hV v (htv v hv)⟩
    exact (congrArg Context.scopes ht).trans hu

namespace Stand

/-- A function can see itself in both. -/
theorem functionDecl {u : Walk} {d : FunctionDecl} (h : Stand V D κ w v u.scopes p)
    (hx : Plain d.name.name) (hnew : ∀ e es, u.scopes = e :: es → e.find? d.name.name = none)
    (hd : ∀ v ∈ d.visits ((u.declare d.name).define d.name.name) .function, V v) :
    Lockstep V κ (Host.lift (Run.functionDecl d)) (Lexical.functionDecl p d) w v
      fun ν _ w' q v' => Stand V D ν w' v' (defined (some d.name.name) u.scopes) q := by
  let f := w.machine.frame
  let c : Closure := ⟨d, f, false⟩
  let a : Value := .function w.machine.store.functions.size
  obtain ⟨ν, q, v₁, hdecl, hν, h₁⟩ := h.declare hx hnew .nil
  let s₁ := w.machine.store.define f d.name.name .nil
  have hc : c.Linked V ν s₁ ⟨d, q.locals, false⟩ := by
    refine ⟨⟨rfl, rfl, _, .function, _, ?_, h₁.mirrors.covers, h₁.sees, hd⟩, fun hi => nomatch hi⟩
    exact u.scopes_declare_define d.name
  have h₂ :
      Stand V D ν { w with machine.store := (s₁.addFunction c).2 }
        (v₁.addFunction ⟨d, q.locals, false⟩).2 (defined (some d.name.name) u.scopes) q := by
    have hg : Store.Grows (fun _ => True) s₁ (s₁.addFunction c).2 := .of_frames_eq rfl
    have hl := h₁.linked
    refine ⟨⟨?_, h.sound.distances, h.sound.moments⟩, ?_, ?_, ?_, h₁.place⟩
    · exact h₁.sound.store.addFunction ⟨hc.toVisited, fun hi => nomatch hi⟩
    · exact h₁.mirrors.mono hg h₁.lt_size trivial
    · exact hl.withStore (hl.store.addFunction hc) rfl
    · exact h₁.sees.mono (.refl ν) hg
  have hbound : (s₁.bound? f d.name.name).isSome := by
    rw [Store.bound?_define, if_pos ⟨rfl, rfl, h.lt_size⟩]
    rfl
  obtain ⟨v₃, hassign, h₃⟩ := h₂.redefine hx hbound a d.name.span
  have hval : (v₁.addFunction ⟨d, q.locals, false⟩).1 = a := h₁.linked.store.addFunction_fst c _
  rw [← hval] at hassign
  -- The one binds the name once, the other declares it first.
  have hstore : (s₁.addFunction c).2.define f d.name.name a =
      (w.machine.store.addFunction c).2.define f d.name.name a :=
    congrArg (fun s : Store => (s.addFunction c).2)
      (w.machine.store.define_define f d.name.name .nil a)
  have hend :
      Stand V D ν
        { w with machine.store := (w.machine.store.addFunction c).2.define f d.name.name a }
        v₃ (defined (some d.name.name) u.scopes) q := by
    rw [← hstore]
    exact h₃
  exact .right hdecl (.right rfl (.right hassign (.of_done rfl rfl hν hend.linked hend)))

/-- A class is added, and its name is bound again. -/
theorem addClass {cs : List Scope} {x : String} (h : Stand V D κ w v (defined (some x) cs) p)
    (hx : Plain x) (hb : (w.machine.store.bound? w.machine.frame x).isSome) {c : Class}
    {r : Lexical.Class} (hc : c.Linked V κ w.machine.store r) (span : Span) :
    Lockstep V κ
      (do
        let a ← Host.lift (Run.update (·.addClass c))
        Host.lift (Run.define x a))
      (do
        let a ← Process.change (·.addClass r)
        Lexical.assign p.locals x a span
        pure p)
      w v fun ν _ w' q v' => Stand V D ν w' v' (defined (some x) cs) q := by
  have hl := h.linked
  have hg : Store.Grows (fun _ => True) w.machine.store (w.machine.store.addClass c).2 :=
    .of_frames_eq rfl
  have hmethods : ∀ y m, c.methods.find? y = some m → m.Method V w.machine.store := by
    intro y m hm
    obtain ⟨hs, -⟩ | ⟨m', d, hs, -, hd⟩ := hc.methods y
    · rw [hm] at hs
      cases hs
    · rw [hm] at hs
      obtain rfl := Option.some.inj hs
      exact hd.toVisited
  have h₁ : Stand V D κ { w with machine.store := (w.machine.store.addClass c).2 } (v.addClass r).2
      (defined (some x) cs) p := by
    refine ⟨⟨h.sound.store.addClass hmethods, h.sound.distances, h.sound.moments⟩,
      h.mirrors.mono hg h.lt_size trivial, ?_, h.sees.mono (.refl κ) hg, h.place⟩
    exact hl.withStore (hl.store.addClass hc) rfl
  obtain ⟨v₂, hassign, h₂⟩ := h₁.redefine hx hb (w.machine.store.addClass c).1 span
  rw [← hl.store.addClass_fst c r] at hassign
  exact .step rfl rfl (.refl κ) (.right hassign (.of_done rfl rfl (.refl κ) h₂.linked h₂))

/-- Both find the same superclass, or fail in the same way. -/
theorem superclassOf {c : Context} (h : Stand V D κ w v c.scopes p) {parent : Superclass}
    (hd : D.get? parent.site.id = c.nearest? parent.name.name)
    (hx : c.status? parent.name.name ≠ some false) :
    Lockstep V κ (Host.lift (Run.superclassOf parent)) (Lexical.superclassOf p.locals parent) w v
      fun _ a w' b v' => b = a ∧ w' = w ∧ v' = v := by
  have hl := h.linked
  have hvar := h.valueOf?_eq hd hx
  unfold Lockstep
  simp only [Watched.lift_eq, Run.superclassOf, Lexical.superclassOf, Lexical.read, Bind.bind,
    Run.bind, Process.bind, Process.ask, Run.lookUp_eq, hvar]
  cases Run.valueOf? w.machine parent.site.id parent.name.name with
  | none => exact .fault hl.output
  | some a =>
    cases a with
    | cls c => exact .done ⟨κ, .refl κ, hl, rfl, rfl, rfl⟩
    | nil | bool | number | string | function | native | object => exact .fault hl.output

/-- The frame that holds `super` is around the methods of a class, but not around the class. -/
theorem addSuper {cs : List Scope} (h : Stand V D κ w v cs p) (c : ClassId) :
    ∃ ν, ν.Extends κ ∧
      Stand V D ν { w with machine.store :=
        (w.machine.store.addFrame ⟨Table.empty.insert "super" (.cls c), some w.machine.frame⟩).2 }
        (v.fresh (.cls c)).2 cs p ∧
      ν.Sees
        (w.machine.store.addFrame ⟨Table.empty.insert "super" (.cls c), some w.machine.frame⟩).2
        w.machine.store.frames.size (Table.empty.insert "super" true :: cs)
        (p.locals.insert "super" v.cells.size) := by
  let t := (w.machine.store.addFrame ⟨Table.empty.insert "super" (.cls c), some w.machine.frame⟩).2
  have hl := h.linked
  have hg : Store.Grows (fun _ => True) w.machine.store t := .addFrame _ _
  obtain ⟨ν, hν, ht, hsees, -⟩ := hl.store.addVariable h.sound.store.size h.sees "super" (.cls c)
  refine ⟨ν, hν, ?_, hsees⟩
  exact {
    sound := ⟨h.sound.store.addSuper c _, h.sound.distances, h.sound.moments⟩
    mirrors := h.mirrors.mono hg h.lt_size trivial
    linked := hl.withStore ht rfl
    sees := h.sees.mono hν hg
    place := h.place }

/-- A class that inherits is made in both, or its superclass is not found in both. -/
theorem inherit {cs : List Scope} {x : Ident} {s : Superclass} {ms : List FunctionDecl} {u : Walk}
    {c : Context} (h : Stand V D κ w v (defined (some x.name) cs) p) (hx : Plain x.name)
    (hb : (w.machine.store.bound? w.machine.frame x.name).isSome) (hs : ∀ v, V v → v.Sound D)
    (hc : c.scopes = defined (some x.name) cs) (hnode : V ⟨.expr s.node, c⟩)
    (hu : u.scopes =
      Table.empty.insert "this" true :: Table.empty.insert "super" true :: defined (some x.name) cs)
    (hms : ∀ v ∈ FunctionDecl.visitsMethods u ms, V v) :
    Lockstep V κ
      (do
        Host.note (.node s.node)
        let k ← Host.lift (Run.superclassOf s)
        let f ← Host.lift
          (Run.update (·.addFrame ⟨Table.empty.insert "super" (.cls k), some w.machine.frame⟩))
        let a ← Host.lift (Run.update (·.addClass ⟨x.name, some k, Run.methodTable f ms⟩))
        Host.lift (Run.define x.name a))
      (do
        let k ← Lexical.superclassOf p.locals s
        let e ← Process.change (·.fresh (.cls k))
        let a ← Process.change (·.addClass ⟨x.name, some k, Lexical.methodTable ms,
          p.locals.insert "super" e⟩)
        Lexical.assign p.locals x.name a x.span
        pure p)
      w v fun ν _ w' q v' => Stand V D ν w' v' (defined (some x.name) cs) q := by
  rw [← hc] at h
  have hnoted := h.note hnode
  refine .note ((hnoted.superclassOf ((hs _ hnode).recorded _ rfl) (hs _ hnode).inScope).bind ?_)
  intro ν _ w' k v' hν hl hq
  obtain ⟨rfl, rfl, rfl⟩ := hq
  have hmid := hnoted.keeps (.refl (K := fun _ => True) hnoted.sound) trivial hν hl
  rw [hc] at hmid
  obtain ⟨ξ, hξ, hend, hsees⟩ := hmid.addSuper k
  have hcov := hmid.mirrors.covers.addSuper k
  have hclass := Class.linked_methodTable hu hms hcov hsees x.name (some k)
  have hbound := (Store.Grows.addFrame (K := fun _ => True) w.machine.store
    ⟨Table.empty.insert "super" (.cls k), some w.machine.frame⟩).bound _ _ hb
  exact .step rfl rfl hξ (hend.addClass hx hbound hclass x.span)

/-- A class can see itself in both. -/
theorem classDecl {u : Walk} {x : Ident} {parent : Option Superclass} {ms : List FunctionDecl}
    {t : Span} (h : Stand V D κ w v u.scopes p)
    (hV : ∀ v ∈ (Stmt.classDecl t x parent ms).visits u, V v) (hs : ∀ v, V v → v.Sound D) :
    Lockstep V κ (Host.classDecl x parent ms) (Lexical.classDecl p x parent ms) w v
      fun ν _ w' q v' => Stand V D ν w' v' (defined (some x.name) u.scopes) q := by
  have hself : V ⟨.declaration x, { u with classKind := .plain }.context⟩ :=
    hV _ (List.mem_append_left _ List.mem_cons_self)
  have hx : Plain x.name := (hs _ hself).proper
  have hmethods := fun v hv => hV v (List.mem_append_right _ hv)
  have hscopes := congrArg Context.scopes (u.context_enterClass x parent)
  obtain ⟨ν, q, v₁, hdecl, hν, h₁⟩ := h.declare hx
    (fun d ds hd => Walk.find?_of_declaration (hs _ hself).errors_eq hd) .nil
  have hbound :
      ((w.machine.store.define w.machine.frame x.name .nil).bound? w.machine.frame
        x.name).isSome := by
    rw [Store.bound?_define, if_pos ⟨rfl, rfl, h.lt_size⟩]
    rfl
  refine .step rfl hdecl hν (.left rfl ?_)
  cases parent with
  | none =>
    have hc := Class.linked_methodTable hscopes hmethods h₁.mirrors.covers
      h₁.sees x.name none
    exact h₁.addClass hx hbound hc x.span
  | some s =>
    have hnode : V ⟨.expr s.node, _⟩ := hV _ (List.mem_append_left _
      (List.mem_cons_of_mem _ (List.mem_cons_of_mem _ List.mem_cons_self)))
    exact h₁.inherit hx hbound hs
      (Walk.scopes_declare_define { u with classKind := .plain } x) hnode
      hscopes hmethods

end Stand

end Declarations

end Lox
