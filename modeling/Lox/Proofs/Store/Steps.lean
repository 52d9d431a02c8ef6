import Mathlib.Logic.Relation
import Lox.Proofs.Running.Frames
import Lox.Proofs.Store.Regions
import Lox.Proofs.Store.Chains
/-!
# Steps of a store

A running program changes its store in a few ways only: it binds a name, makes a frame, a function,
a class or an instance, or sets a field. What it puts in refers to what is there. So every link
leads to something older, and what has been made keeps its links: a frame the frame around it, a
class its superclass and its methods, an instance its class.
-/

namespace Lox

/-! ### Declarations of classes -/

/-- The declaration of a class. -/
structure ClassDecl where
  name : Ident
  superclass : Option Superclass
  methods : List FunctionDecl

mutual

/-- The classes that are declared in a piece of code, also inside of functions and of methods. -/
def Stmt.classes : Stmt → List ClassDecl
  | .block _ b => Stmt.classesAll b
  | .ifElse _ _ s none => s.classes
  | .ifElse _ _ s (some t) => s.classes ++ t.classes
  | .whileLoop _ _ s => s.classes
  | .function d => d.classes
  | .classDecl _ x p ms => ⟨x, p, ms⟩ :: FunctionDecl.classesAll ms
  | .expr .. | .print .. | .var .. | .returning .. => []

def Stmt.classesAll : List Stmt → List ClassDecl
  | [] => []
  | s :: ss => s.classes ++ Stmt.classesAll ss

def FunctionDecl.classes : FunctionDecl → List ClassDecl
  | .mk _ _ b _ => Stmt.classesAll b

def FunctionDecl.classesAll : List FunctionDecl → List ClassDecl
  | [] => []
  | d :: ds => d.classes ++ FunctionDecl.classesAll ds

end

theorem FunctionDecl.classes_eq (d : FunctionDecl) : d.classes = Stmt.classesAll d.body := by
  cases d
  rfl

private theorem FunctionDecl.mem_classesAll {d : FunctionDecl} {ds : List FunctionDecl}
    (hd : d ∈ ds) {k : ClassDecl} (hk : k ∈ d.classes) : k ∈ FunctionDecl.classesAll ds := by
  induction ds with
  | nil => cases hd
  | cons e ds ih =>
    rcases List.mem_cons.mp hd with rfl | hd
    · exact List.mem_append_left _ hk
    · exact List.mem_append_right _ (ih hd)

namespace ClassDecl

/-- The class itself and those that are declared in its methods. -/
def classes (d : ClassDecl) : List ClassDecl := d :: FunctionDecl.classesAll d.methods

/-- The last method of the declaration with the name. -/
def method? (d : ClassDecl) (x : String) : Option FunctionDecl :=
  (d.methods.filter (·.name.name = x)).getLast?

/-- The class that the declaration makes, with what its superclass was found to be and the
frame of its methods. -/
def toClass (d : ClassDecl) (p : Option ClassId) (f : FrameId) : Class :=
  ⟨d.name.name, p, Run.methodTable f d.methods⟩

end ClassDecl

/-- Of several methods with one name the last counts. -/
theorem find?_methodTable_getLast? (f : FrameId) (ms : List FunctionDecl) (x : String) :
    (Run.methodTable f ms).find? x =
      (ms.filter (·.name.name = x)).getLast?.map (⟨·, f, decide (x = initializerName)⟩) := by
  have hfold : ∀ t : Table Closure,
      (ms.foldl (fun t d => t.insert d.name.name ⟨d, f, d.name.name = initializerName⟩) t).find? x =
        ((ms.filter (·.name.name = x)).getLast?.map (⟨·, f, decide (x = initializerName)⟩)).or
          (t.find? x) := by
    induction ms with
    | nil => exact fun t => rfl
    | cons d ms ih =>
      intro t
      rw [List.foldl_cons, ih, Table.find?_insert]
      by_cases hd : d.name.name = x
      · rw [List.filter_cons_of_pos (by simpa using hd), List.getLast?_cons, if_pos hd, hd]
        cases (ms.filter (·.name.name = x)).getLast? <;> rfl
      · rw [List.filter_cons_of_neg (by simpa using hd), if_neg hd]
  exact (hfold .empty).trans (Option.or_none)

theorem ClassDecl.find?_methods (d : ClassDecl) (p : Option ClassId) (f : FrameId) (x : String) :
    (d.toClass p f).methods.find? x = (d.method? x).map (⟨·, f, decide (x = initializerName)⟩) :=
  find?_methodTable_getLast? f d.methods x

namespace Store

variable {s t u : Store} {C : ClassDecl → Prop} {f g : FrameId} {x : String} {v : Value}

/-! ### What stays as it is -/

/-- `t` comes after `s`: what was there has kept its links. -/
structure Settles (s t : Store) : Prop where
  size : s.frames.size ≤ t.frames.size
  enclosing : ∀ f < s.frames.size, t.enclosing? f = s.enclosing? f
  functions : ∀ (i : FunctionId) c, s.functions[i]? = some c → t.functions[i]? = some c
  classes : ∀ (k : ClassId) cls, s.classes[k]? = some cls → t.classes[k]? = some cls
  instances : ∀ (i : InstanceId) inst, s.instances[i]? = some inst →
    ∃ inst', t.instances[i]? = some inst' ∧ inst'.cls = inst.cls

namespace Settles

theorem refl (s : Store) : s.Settles s :=
  ⟨Nat.le_refl _, fun _ _ => rfl, fun _ _ h => h, fun _ _ h => h, fun _ inst h => ⟨inst, h, rfl⟩⟩

theorem trans (h : s.Settles t) (h' : t.Settles u) : s.Settles u where
  size := Nat.le_trans h.size h'.size
  enclosing f hf := (h'.enclosing f (Nat.lt_of_lt_of_le hf h.size)).trans (h.enclosing f hf)
  functions i c hc := h'.functions i c (h.functions i c hc)
  classes k cls hk := h'.classes k cls (h.classes k cls hk)
  instances i inst hi := by
    obtain ⟨inst', hi', hcls⟩ := h.instances i inst hi
    obtain ⟨inst'', hi'', hcls'⟩ := h'.instances i inst' hi'
    exact ⟨inst'', hi'', hcls'.trans hcls⟩

theorem lt_classes (h : s.Settles t) {c : ClassId} (hc : c < s.classes.size) : c < t.classes.size :=
  (Array.getElem?_eq_some_iff.mp (h.classes c _ (Array.getElem?_eq_getElem hc))).1

theorem addFrame (s : Store) (fr : Frame) : s.Settles (s.addFrame fr).2 where
  size := by simp
  enclosing f hf := by rw [enclosing?_addFrame, if_neg (Nat.ne_of_lt hf)]
  functions _ _ h := h
  classes _ _ h := h
  instances _ inst h := ⟨inst, h, rfl⟩

theorem define (s : Store) (f : FrameId) (x : String) (v : Value) : s.Settles (s.define f x v) where
  size := by simp
  enclosing g _ := enclosing?_define s f x v g
  functions _ _ h := h
  classes _ _ h := h
  instances _ inst h := ⟨inst, h, rfl⟩

theorem addFunction (s : Store) (c : Closure) : s.Settles (s.addFunction c).2 where
  size := Nat.le_refl _
  enclosing _ _ := rfl
  functions _ _ h := getElem?_push_of_some h c
  classes _ _ h := h
  instances _ inst h := ⟨inst, h, rfl⟩

theorem addClass (s : Store) (cls : Class) : s.Settles (s.addClass cls).2 where
  size := Nat.le_refl _
  enclosing _ _ := rfl
  functions _ _ h := h
  classes _ _ h := getElem?_push_of_some h cls
  instances _ inst h := ⟨inst, h, rfl⟩

theorem addInstance (s : Store) (inst : Instance) : s.Settles (s.addInstance inst).2 where
  size := Nat.le_refl _
  enclosing _ _ := rfl
  functions _ _ h := h
  classes _ _ h := h
  instances _ inst' h := ⟨inst', getElem?_push_of_some h inst, rfl⟩

theorem setField (s : Store) (i : InstanceId) (x : String) (v : Value) :
    s.Settles (s.setField i x v) where
  size := Nat.le_refl _
  enclosing _ _ := rfl
  functions _ _ h := h
  classes _ _ h := h
  instances j inst h := by
    rw [Store.setField, Array.getElem?_modify, h]
    split
    · exact ⟨_, rfl, rfl⟩
    · exact ⟨inst, rfl, rfl⟩

end Settles

/-! ### Stores in which every link leads to something older -/

/-- If the value is a class, the store has it. -/
def Knows (s : Store) (v : Value) : Prop := ∀ c, v = .cls c → c < s.classes.size

theorem Knows.settles (h : s.Knows v) (hs : s.Settles t) : t.Knows v :=
  fun c hc => hs.lt_classes (h c hc)

/-- A value without an address. -/
theorem Knows.plain (h : v.thing? = none) : s.Knows v := by
  rintro c rfl
  cases h

end Store

variable {s t : Store} {C : ClassDecl → Prop}

/-- The function was declared in a frame that is there, and it declares only classes with `C`. -/
structure Closure.Founded (C : ClassDecl → Prop) (s : Store) (c : Closure) : Prop where
  scope : c.scope < s.frames.size
  code : ∀ k ∈ c.decl.classes, C k

/-- The class with the address `k` was made by a declaration with `C`. Its superclass
was there before. -/
structure Class.Founded (C : ClassDecl → Prop) (s : Store) (k : ClassId) (cls : Class) : Prop where
  superclass : ∀ p, cls.superclass = some p → p < k
  declared : ∃ (d : ClassDecl) (f : FrameId), (∀ e ∈ d.classes, C e) ∧ f < s.frames.size ∧
    cls.superclass.isSome = d.superclass.isSome ∧ cls = d.toClass cls.superclass f

structure Instance.Founded (s : Store) (inst : Instance) : Prop where
  cls : inst.cls < s.classes.size
  fields : ∀ x v, inst.fields.find? x = some v → s.Knows v

theorem Closure.Founded.settles {c : Closure} (h : c.Founded C s) (hs : s.Settles t) :
    c.Founded C t :=
  ⟨Nat.lt_of_lt_of_le h.scope hs.size, h.code⟩

theorem Class.Founded.settles {k : ClassId} {cls : Class} (h : cls.Founded C s k)
    (hs : s.Settles t) : cls.Founded C t k := by
  obtain ⟨d, f, hd, hf, hcls⟩ := h.declared
  exact ⟨h.superclass, d, f, hd, Nat.lt_of_lt_of_le hf hs.size, hcls⟩

theorem Instance.Founded.settles {inst : Instance} (h : inst.Founded s) (hs : s.Settles t) :
    inst.Founded t :=
  ⟨hs.lt_classes h.cls, fun x v hv => (h.fields x v hv).settles hs⟩

/-- A method of a class is a function that was declared with it. -/
theorem Class.Founded.method {k : ClassId} {cls : Class} (h : cls.Founded C s k) {x : String}
    {m : Closure} (hm : cls.methods.find? x = some m) : m.Founded C s := by
  obtain ⟨d, f, hd, hf, -, hcls⟩ := h.declared
  rw [hcls] at hm
  obtain ⟨e, he, rfl⟩ := mem_of_find?_methodTable hm
  exact ⟨hf, fun e' he' => hd e' (List.mem_cons_of_mem _ (FunctionDecl.mem_classesAll he he'))⟩

namespace Store

variable {u : Store} {f g : FrameId} {c : ClassId} {i : InstanceId} {x : String} {v : Value}
  {m : Closure}

/-- The frame of the global variables has none around it, and every other frame lies in an older
one. Whatever else there is was made in frames that are there, and of classes that are there. -/
structure Founded (C : ClassDecl → Prop) (s : Store) : Prop where
  size : globals < s.frames.size
  root : s.enclosing? globals = none
  links : ∀ f < s.frames.size, f ≠ globals → ∃ g < f, s.enclosing? f = some g
  bound : ∀ f x v, s.bound? f x = some v → s.Knows v
  functions : ∀ c ∈ s.functions, c.Founded C s
  classes : ∀ (k : ClassId) cls, s.classes[k]? = some cls → cls.Founded C s k
  instances : ∀ inst ∈ s.instances, inst.Founded s

namespace Founded

/-- What is asked of the parts holds of those that were there before. -/
theorem of_settles (h : s.Founded C) (hs : s.Settles t)
    (hl : ∀ f < t.frames.size, f < s.frames.size ∨ ∃ g < f, t.enclosing? f = some g)
    (hb : ∀ f x v, t.bound? f x = some v → s.bound? f x = some v ∨ s.Knows v)
    (hf : ∀ c ∈ t.functions, c ∈ s.functions ∨ c.Founded C s)
    (hc : ∀ (k : ClassId) cls, t.classes[k]? = some cls → s.classes[k]? = some cls ∨
      cls.Founded C s k)
    (hi : ∀ inst ∈ t.instances, inst ∈ s.instances ∨ inst.Founded s) : t.Founded C where
  size := Nat.lt_of_lt_of_le h.size hs.size
  root := (hs.enclosing _ h.size).trans h.root
  links f hft hne := by
    obtain hold | hnew := hl f hft
    · obtain ⟨g, hg, he⟩ := h.links f hold hne
      exact ⟨g, hg, (hs.enclosing f hold).trans he⟩
    · exact hnew
  bound f x v hv := ((hb f x v hv).elim (h.bound f x v) id).settles hs
  functions c hcl := ((hf c hcl).elim (h.functions c) id).settles hs
  classes k cls hk := ((hc k cls hk).elim (h.classes k cls) id).settles hs
  instances inst hin := ((hi inst hin).elim (h.instances inst) id).settles hs

theorem imp {C' : ClassDecl → Prop} (h : s.Founded C) (hC : ∀ d, C d → C' d) : s.Founded C' where
  size := h.size
  root := h.root
  links := h.links
  bound := h.bound
  functions c hc := ⟨(h.functions c hc).scope, fun k hk => hC k ((h.functions c hc).code k hk)⟩
  classes k cls hk := by
    obtain ⟨d, f, hd, hrest⟩ := (h.classes k cls hk).declared
    exact ⟨(h.classes k cls hk).superclass, d, f, fun e he => hC e (hd e he), hrest⟩
  instances := h.instances

/-! ### What is found there -/

theorem enclosing?_lt (h : s.Founded C) (f g : FrameId) (hg : s.enclosing? f = some g) : g < f := by
  obtain rfl | hne := Decidable.em (f = globals)
  · rw [h.root] at hg
    cases hg
  · obtain ⟨g', hlt, hg'⟩ := h.links f (lt_of_enclosing? hg) hne
    rw [hg] at hg'
    exact Option.some.inj hg' ▸ hlt

theorem superclass?_lt (h : s.Founded C) (c p : ClassId) (hp : s.superclass? c = some p) :
    p < c := by
  obtain ⟨cls, hcls, hp⟩ := Option.bind_eq_some_iff.mp hp
  exact (h.classes c cls hcls).superclass p hp

theorem getAt? (h : s.Founded C) {d : Nat} (hv : s.getAt? f d x = some v) : s.Knows v := by
  obtain ⟨g, -, hv⟩ := Option.bind_eq_some_iff.mp hv
  exact h.bound g x v hv

theorem get? (h : s.Founded C) (hv : s.get? f x = some v) : s.Knows v := by
  obtain ⟨g, -, hv⟩ := Option.bind_eq_some_iff.mp hv
  exact h.bound g x v hv

theorem method? (h : s.Founded C) (hm : s.method? c x = some m) : m.Founded C s := by
  obtain ⟨k, cls, -, hcls, y, hy⟩ := hasMethod_of_method? hm
  exact (h.classes k cls hcls).method hy

theorem field (h : s.Founded C) (hv : s.property? i x = some (.field v)) : s.Knows v := by
  unfold Store.property? at hv
  split at hv
  · cases hv
  · rename_i inst hinst
    split at hv
    · rename_i hw
      cases hv
      exact (h.instances inst (Array.mem_of_getElem? hinst)).fields x v hw
    · obtain ⟨m, -, hm⟩ := Option.map_eq_some_iff.mp hv
      cases hm

theorem ownMethod (h : s.Founded C) (hm : s.property? i x = some (.method m)) : m.Founded C s := by
  unfold Store.property? at hm
  split at hm
  · cases hm
  · split at hm
    · cases hm
    · obtain ⟨m', hm', heq⟩ := Option.map_eq_some_iff.mp hm
      cases heq
      exact h.method? hm'

end Founded

/-! ### Steps -/

/-- What a running program does to its store at once, when the classes that it declares have `C`. -/
inductive Step (C : ClassDecl → Prop) (s : Store) : Store → Prop where
  | define {f : FrameId} {x : String} {v : Value} : s.Knows v → Step C s (s.define f x v)
  | addFrame {fr : Frame} {g : FrameId} : fr.enclosing = some g → g < s.frames.size →
    (∀ x v, fr.bindings.find? x = some v → s.Knows v) → Step C s (s.addFrame fr).2
  | addFunction {c : Closure} : c.Founded C s → Step C s (s.addFunction c).2
  | addClass {d : ClassDecl} {p : Option ClassId} {f : FrameId} : (∀ e ∈ d.classes, C e) →
    (∀ c, p = some c → c < s.classes.size) → f < s.frames.size → p.isSome = d.superclass.isSome →
    Step C s (s.addClass (d.toClass p f)).2
  | addInstance {c : ClassId} : c < s.classes.size → Step C s (s.addInstance ⟨c, .empty⟩).2
  | setField {i : InstanceId} {x : String} {v : Value} : s.Knows v → Step C s (s.setField i x v)

/-- What has been made keeps its links in every step. -/
theorem Step.settles (h : s.Step C t) : s.Settles t := by
  cases h with
  | define => exact .define s _ _ _
  | addFrame => exact .addFrame s _
  | addFunction => exact .addFunction s _
  | addClass => exact .addClass s _
  | addInstance => exact .addInstance s _
  | setField => exact .setField s _ _ _

/-- Every step makes links to older things only. -/
theorem Founded.step (h : s.Founded C) (hs : s.Step C t) : t.Founded C := by
  have hsettles := hs.settles
  cases hs with
  | @define f x v hv =>
    refine h.of_settles hsettles (fun g hg => .inl (by simpa using hg)) (fun g y w hw => ?_)
      (fun _ => .inl)
      (fun _ _ => .inl) fun _ => .inl
    rw [bound?_define] at hw
    split at hw
    · exact .inr (Option.some.inj hw ▸ hv)
    · exact .inl hw
  | @addFrame fr g hfr hg hbindings =>
    refine h.of_settles hsettles (fun f hf => ?_) (fun f x v hv => ?_) (fun _ => .inl)
      (fun _ _ => .inl) fun _ => .inl
    · rw [size_addFrame] at hf
      obtain hf | rfl := Nat.lt_succ_iff_lt_or_eq.mp hf
      · exact .inl hf
      · exact .inr ⟨g, hg, by rw [enclosing?_addFrame, if_pos rfl, hfr]⟩
    · rw [bound?_addFrame] at hv
      split at hv
      · exact .inr (hbindings x v hv)
      · exact .inl hv
  | @addFunction c hc =>
    refine h.of_settles hsettles (fun _ => .inl) (fun _ _ _ => .inl) (fun e he => ?_)
      (fun _ _ => .inl) fun _ => .inl
    obtain he | rfl := Array.mem_push.mp he
    · exact .inl he
    · exact .inr hc
  | @addClass d p f hd hp hf hinherits =>
    refine h.of_settles hsettles (fun _ => .inl) (fun _ _ _ => .inl) (fun _ => .inl)
      (fun k cls hk => ?_) fun _ => .inl
    rw [Store.addClass, Array.getElem?_push] at hk
    split at hk
    · rename_i hlast
      obtain rfl := Option.some.inj hk
      exact .inr ⟨fun c hc => hlast ▸ hp c hc, d, f, hd, hf, hinherits, rfl⟩
    · exact .inl hk
  | @addInstance c hc =>
    refine h.of_settles hsettles (fun _ => .inl) (fun _ _ _ => .inl) (fun _ => .inl)
      (fun _ _ => .inl) fun inst hi => ?_
    obtain hi | rfl := Array.mem_push.mp hi
    · exact .inl hi
    · exact .inr ⟨hc, fun _ _ hv => by cases hv⟩
  | @setField i x v hv =>
    refine h.of_settles hsettles (fun _ => .inl) (fun _ _ _ => .inl) (fun _ => .inl)
      (fun _ _ => .inl) fun inst hi => ?_
    obtain ⟨j, hj⟩ := Array.mem_iff_getElem?.mp hi
    rw [Store.setField, Array.getElem?_modify] at hj
    split at hj
    · obtain ⟨inst', hj', rfl⟩ := Option.map_eq_some_iff.mp hj
      have hold := h.instances inst' (Array.mem_of_getElem? hj')
      refine .inr ⟨hold.cls, fun y w hw => ?_⟩
      rw [Table.find?_insert] at hw
      split at hw
      · exact Option.some.inj hw ▸ hv
      · exact hold.fields y w hw
    · exact .inl (Array.mem_of_getElem? hj)

theorem knows_object (s : Store) (i : InstanceId) : s.Knows (.object i) := nofun

theorem knows_function (s : Store) (i : FunctionId) : s.Knows (.function i) := nofun

/-- Binding a method makes its frame. -/
theorem step_bind (hm : m.Founded C s) (i : InstanceId) : s.Step C (s.bind m i).2 := by
  refine .addFrame rfl hm.scope fun x v hv => ?_
  rw [Table.find?_insert] at hv
  split at hv
  · exact Option.some.inj hv ▸ s.knows_object i
  · cases hv

/-- The method that is bound closes over the frame that was made for it. -/
theorem founded_bind (hm : m.Founded C s) (i : InstanceId) :
    (s.bind m i).1.Founded C (s.bind m i).2 :=
  ⟨(size_addFrame s _).symm ▸ Nat.lt_succ_self _, hm.code⟩

/-- The frame of a call. -/
theorem step_call (hm : m.Founded C s) {vs : List Value} (hvs : ∀ v ∈ vs, s.Knows v) :
    s.Step C (s.addFrame ⟨Run.bindParameters m.decl.parameters vs, some m.scope⟩).2 := by
  refine .addFrame rfl hm.scope fun x v hv => ?_
  obtain ⟨p, hp, -, rfl⟩ := mem_zip_of_find?_bindParameters hv
  exact hvs p.2 (List.of_mem_zip hp).2

/-- The frame that holds `super`. -/
theorem step_super {p : ClassId} (hf : f < s.frames.size) (hp : p < s.classes.size) :
    s.Step C (s.addFrame ⟨Table.empty.insert "super" (.cls p), some f⟩).2 := by
  refine .addFrame rfl hf fun x v hv => ?_
  rw [Table.find?_insert] at hv
  split at hv
  · rintro c rfl
    cases hv
    exact hp
  · cases hv

/-- `t` comes out of `s` by steps. -/
abbrev Steps (C : ClassDecl → Prop) : Store → Store → Prop := Relation.ReflTransGen (Step C)

namespace Steps

theorem settles (h : Steps C s t) : s.Settles t := by
  induction h with
  | refl => exact .refl s
  | tail _ hstep ih => exact ih.trans hstep.settles

theorem founded (h : Steps C s t) (hs : s.Founded C) : t.Founded C := by
  induction h with
  | refl => exact hs
  | tail _ hstep ih => exact ih.step hstep

end Steps

theorem steps_bindValue (hm : m.Founded C s) (i : InstanceId) : Steps C s (s.bindValue m i).2 :=
  .tail (.single (step_bind hm i)) (.addFunction (founded_bind hm i))

end Store

end Lox
