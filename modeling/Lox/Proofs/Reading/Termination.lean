import Lox.Proofs.Reading.Recursion
/-!
# The recursion of the readers ends

Each call is made with fewer tokens left, or with as many and lower down in the grammar. So what a
reader does depends on the calls only where they need less fuel, and unrolled as deep as the need
says, the equations give the same whatever stands for the calls that are deeper still. That is what
the readers give with any fuel that is enough.
-/

namespace Lox

/-! ### One piece after another -/

namespace Reader

variable {α β : Type} {r r' : Reader α} {f f' : α → Reader β} {c : Cursor}

theorem bind_agree (h : r c = r' c) (hf : ∀ a, (r' c).1 = some a → f a (r' c).2 = f' a (r' c).2) :
    (r >>= f) c = (r' >>= f') c := by
  cases ha : (r' c).1 with
  | none => rw [bind_of_none ha, bind_of_none (by rw [h]; exact ha), h]
  | some a => rw [bind_of_some ha, bind_of_some (by rw [h]; exact ha), h, hf a ha]

private theorem map_agree {g : α → β} (h : r c = r' c) : (g <$> r) c = (g <$> r') c := by
  change (r >>= fun a => pure (g a)) c = (r' >>= fun a => pure (g a)) c
  exact bind_agree h fun _ _ => rfl

/-- What follows starts with no more tokens. -/
theorem bind_onward [r'.Onward] (h : r c = r' c)
    (hf : ∀ a d, d.rest.length ≤ c.rest.length → f a d = f' a d) : (r >>= f) c = (r' >>= f') c :=
  bind_agree h fun a _ => hf a _ (Onward.ahead (r := r') c).length

private theorem length_expect {s : Symbol} {place : String} {t : Span}
    (h : (expect s place c).1 = some t) : (expect s place c).2.rest.length < c.rest.length := by
  unfold expect at h ⊢
  split at h
  · rename_i hs
    rw [if_pos hs]
    exact length_advance (rest_ne_nil_of_isSymbol hs)
  · cases h

theorem length_name {role : String} {x : Ident} (h : (name role c).1 = some x) :
    (name role c).2.rest.length < c.rest.length := by
  unfold name at h ⊢
  split at h
  · rename_i hk
    exact length_advance (rest_ne_nil_of_kind (by rw [hk]; rfl))
  · cases h

theorem bind_ask {g : Cursor → α} (hf : f (g c) c = f' (g c) c) :
    (ask g >>= f) c = (ask g >>= f') c := hf

theorem bind_expect {s : Symbol} {place : String} {f f' : Span → Reader β}
    (hf : ∀ t d, d.rest.length < c.rest.length → f t d = f' t d) :
    (expect s place >>= f) c = (expect s place >>= f') c :=
  bind_agree rfl fun t ht => hf t _ (length_expect ht)

theorem bind_name {role : String} {f f' : Ident → Reader β}
    (hf : ∀ x d, d.rest.length < c.rest.length → f x d = f' x d) :
    (name role >>= f) c = (name role >>= f') c :=
  bind_agree rfl fun x hx => hf x _ (length_name hx)

theorem bind_takeIf {r : Reader Bool} {p : Cursor → Bool} {f f' : Bool → Reader β}
    (hr : ∀ c, r c = if p c then (some true, c.advance) else (some false, c))
    (hp : p c = true → c.rest ≠ [])
    (hyes : ∀ d, d.rest.length < c.rest.length → f true d = f' true d)
    (hno : f false c = f' false c) : (r >>= f) c = (r >>= f') c := by
  refine bind_agree rfl fun a ha => ?_
  rw [hr] at ha ⊢
  split at ha <;> rename_i hc <;> cases ha
  · rw [if_pos hc]
    exact hyes _ (length_advance (hp hc))
  · rw [if_neg hc]
    exact hno

theorem bind_eat {s : Symbol} {f f' : Bool → Reader β}
    (hyes : ∀ d, d.rest.length < c.rest.length → f true d = f' true d)
    (hno : f false c = f' false c) : (eat s >>= f) c = (eat s >>= f') c :=
  bind_takeIf (p := (·.isSymbol s)) (fun _ => rfl) rest_ne_nil_of_isSymbol hyes hno

private theorem bind_eatKeyword {w : Keyword} {f f' : Bool → Reader β}
    (hyes : ∀ d, d.rest.length < c.rest.length → f true d = f' true d)
    (hno : f false c = f' false c) : (eatKeyword w >>= f) c = (eatKeyword w >>= f') c :=
  bind_takeIf (p := (·.isKeyword w)) (fun _ => rfl) rest_ne_nil_of_isKeyword hyes hno

/-- What follows a token that is there starts with fewer tokens. -/
theorem bind_advance {f f' : Span → Reader β} (hc : c.rest ≠ [])
    (hf : ∀ t d, d.rest.length < c.rest.length → f t d = f' t d) :
    (advance >>= f) c = (advance >>= f') c :=
  bind_agree rfl fun t _ => hf t _ (length_advance hc)

/-- A reader moves if its first piece does. -/
theorem length_bind [hf : ∀ a, (f a).Onward] {b : β}
    (hr : ∀ a, (r c).1 = some a → (r c).2.rest.length < c.rest.length)
    (h : ((r >>= f) c).1 = some b) : ((r >>= f) c).2.rest.length < c.rest.length := by
  cases ha : (r c).1 with
  | none =>
    rw [bind_of_none ha] at h
    cases h
  | some a =>
    rw [bind_of_some ha]
    exact Nat.lt_of_le_of_lt ((hf a).ahead _).length (hr a ha)

private theorem length_function {n : Nat} {sort : String} {d : FunctionDecl}
    (h : (function n sort c).1 = some d) : (function n sort c).2.rest.length < c.rest.length := by
  cases n with
  | zero => cases h
  | succ n => exact length_bind (fun _ => length_name) h

end Reader

namespace Reading

variable {go : Calls} {n : Nat}

instance (n : Nat) (r : Reading α) : (r.reader n).Onward := by
  cases r <;> unfold reader <;> infer_instance

/-- What stands for the readers does what they do where less fuel is needed. -/
def Agrees (go : Calls) (n fuel : Nat) : Prop :=
  ∀ {β : Type} (s : Reading β) (d : Cursor), s.need d < fuel → go s d = s.reader n d

section

variable {go : Calls} {n : Nat}

open Reader

private theorem assignment_congr (h : Agrees go n (need c assignment)) :
    body go assignment c = body (reader n) assignment c := by
  refine bind_onward (h (level .or) c (Nat.lt_succ_self _)) fun target d hd => ?_
  refine bind_eat (fun e he => bind_onward rfl fun s f hf => ?_) rfl
  exact bind_onward (h assignment f (by simp only [need]; omega)) fun _ _ _ => rfl

private theorem level_congr (l : Level) (h : Agrees go n (need c (level l))) :
    body go (level l) c = body (reader n) (level l) c := by
  refine bind_onward (h (operand l) c (by simp only [need]; omega)) fun left d hd => ?_
  exact h (moreOperands l left) d (by simp only [need]; omega)

private theorem moreOperands_congr (l : Level) (left : Expr)
    (h : Agrees go n (need c (moreOperands l left))) :
    body go (moreOperands l left) c = body (reader n) (moreOperands l left) c := by
  refine bind_ask ?_
  cases ho : l.operator? c.kind with
  | none => rfl
  | some op =>
    have hc : c.rest ≠ [] := by
      intro hr
      rw [Cursor.kind, hr] at ho
      cases l <;> cases ho
    have hsteps : l.steps ≤ 12 := by cases l <;> decide
    refine bind_advance hc fun t d hd => ?_
    refine bind_onward (h (operand l) d (by simp only [need]; omega)) fun right e he => ?_
    refine bind_onward rfl fun node f hf => ?_
    exact h (moreOperands l node) f (by simp only [need]; omega)

private theorem operand_congr (l : Level) (h : Agrees go n (need c (operand l))) :
    body go (operand l) c = body (reader n) (operand l) c := by
  simp only [body]
  cases ht : l.tighter? with
  | some t => exact h (level t) c (by simp only [need, Level.steps_tighter ht]; omega)
  | none => exact h unary c (by simp only [need, Level.steps_of_tighter?_eq_none ht]; omega)

private theorem unary_congr (h : Agrees go n (need c unary)) :
    body go unary c = body (reader n) unary c := by
  refine bind_ask ?_
  cases ho : UnaryOp.ofToken? c.kind with
  | none =>
    refine bind_onward (h primary c (Nat.lt_succ_self _)) fun callee d hd => ?_
    exact h (calls callee) d (by simp only [need]; omega)
  | some op =>
    have hc : c.rest ≠ [] := by
      intro hr
      rw [Cursor.kind, hr] at ho
      cases ho
    refine bind_advance hc fun t d hd => ?_
    exact bind_onward (h unary d (by simp only [need]; omega)) fun _ _ _ => rfl

private theorem calls_congr (e : Expr) (h : Agrees go n (need c (calls e))) :
    body go (calls e) c = body (reader n) (calls e) c := by
  have hcall : ∀ es d, d.rest.length < c.rest.length →
      (do let paren ← Reader.expect .rightParen "after arguments"
          let s ← site (e.span.merge paren)
          go (calls (.call s e paren es)) : Reader Expr) d =
        (do let paren ← Reader.expect .rightParen "after arguments"
            let s ← site (e.span.merge paren)
            reader n (calls (.call s e paren es)) : Reader Expr) d := fun es d hd =>
    bind_expect fun t f hf => bind_onward rfl fun s g hg =>
      h (calls _) g (by simp only [need]; omega)
  refine bind_eat (fun d hd => ?_) (bind_eat (fun d hd => ?_) rfl)
  · refine bind_ask ?_
    split
    · exact hcall [] d hd
    · exact bind_onward (h (arguments 0) d (by simp only [need]; omega)) fun es f hf =>
        hcall es f (by omega)
  · refine bind_name fun x f hf => bind_onward rfl fun s g hg => ?_
    exact h (calls _) g (by simp only [need]; omega)

private theorem arguments_congr (count : Nat) (h : Agrees go n (need c (arguments count))) :
    body go (arguments count) c = body (reader n) (arguments count) c := by
  have hrest : ∀ d, d.rest.length ≤ c.rest.length →
      (do let e ← go assignment
          if ← eat .comma then
            let es ← go (arguments (count + 1))
            pure (e :: es)
          else
            pure [e] : Reader (List Expr)) d = argumentsRest n count d := fun d hd => by
    refine bind_onward (h assignment d (by simp only [need]; omega)) fun e f hf => ?_
    refine bind_eat (fun g hg => ?_) rfl
    exact bind_onward (h (arguments (count + 1)) g (by simp only [need]; omega)) fun _ _ _ => rfl
  change (if maxArity ≤ count then report .tooManyArguments >>= fun _ => _ else _ : Reader _) c =
    (if maxArity ≤ count then report .tooManyArguments >>= fun _ => _ else _ : Reader _) c
  split
  · exact bind_onward rfl fun _ d hd => hrest d hd
  · exact hrest c (Nat.le_refl _)

private theorem primary_congr (h : Agrees go n (need c primary)) :
    body go primary c = body (reader n) primary c := by
  refine bind_ask (bind_ask ?_)
  generalize hk : c.kind = k
  split
  · rfl
  · rfl
  · rfl
  · have hc : c.rest ≠ [] := rest_ne_nil_of_kind (by rw [hk]; rfl)
    refine bind_advance hc fun t d hd => ?_
    exact bind_onward (h assignment d (by simp only [need]; omega)) fun _ _ _ => rfl
  · rfl

private theorem parameters_congr (count : Nat) (h : Agrees go n (need c (parameters count))) :
    body go (parameters count) c = body (reader n) (parameters count) c := by
  have hrest : ∀ d, d.rest.length ≤ c.rest.length →
      (do let x ← Reader.name "parameter name"
          if ← eat .comma then
            let xs ← go (parameters (count + 1))
            pure (x :: xs)
          else
            pure [x] : Reader (List Ident)) d = parametersRest n count d := fun d hd => by
    refine bind_name fun x e he => bind_eat (fun f hf => ?_) rfl
    exact bind_onward (h (parameters (count + 1)) f (by simp only [need]; omega)) fun _ _ _ => rfl
  change (if maxArity ≤ count then report .tooManyParameters >>= fun _ => _ else _ : Reader _) c =
    (if maxArity ≤ count then report .tooManyParameters >>= fun _ => _ else _ : Reader _) c
  split
  · exact bind_onward rfl fun _ d hd => hrest d hd
  · exact hrest c (Nat.le_refl _)

private theorem declaration_congr (h : Agrees go n (need c declaration)) :
    body go declaration c = body (reader n) declaration c := by
  refine congrArg StatementRuns.recovered ?_
  generalize hk : c.kind = k
  unfold declarationBody
  split
  · exact h classDecl c (by simp only [need]; omega)
  · have hc : c.rest ≠ [] := rest_ne_nil_of_kind (by rw [hk]; rfl)
    refine bind_advance hc fun t d hd => ?_
    exact bind_onward (h (function "function") d (by simp only [need]; omega)) fun _ _ _ => rfl
  · rfl
  · exact h statement c (by simp only [need]; omega)

private theorem declarations_congr (h : Agrees go n (need c declarations))
    (hn : need c declarations ≤ n + 1) :
    body go declarations c = body (reader n) declarations c := by
  refine bind_ask ?_
  split
  · rfl
  · rename_i hstop
    have hc : c.rest ≠ [] := fun hc => hstop (by simp [Cursor.atEnd, hc])
    have hd := ((statementTwins Likeness.numbers_same (fun _ ht => by
      cases ht) n).declaration c.like_self
      (m := n) (by simp only [need] at hn; omega) (by simp only [need] at hn; omega)).2 hc
    have hdecl : go declaration c = Reader.declaration n c :=
      h declaration c (by simp only [need]; omega)
    refine bind_agree (congrArg (fun o => (some o.1, o.2)) hdecl) fun s _ => ?_
    exact bind_onward (h declarations _ (by simp only [need, attempt, reader]; omega))
      fun _ _ _ => rfl

private theorem block_congr (h : Agrees go n (need c block)) :
    body go block c = body (reader n) block c := by
  refine bind_expect fun t d hd => ?_
  exact bind_onward (h declarations d (by simp only [need]; omega)) fun _ _ _ => rfl

private theorem function_congr (sort : String) (h : Agrees go n (need c (function sort))) :
    body go (function sort) c = body (reader n) (function sort) c := by
  refine bind_name fun x d hd => bind_onward rfl fun ps e he => ?_
  refine bind_ask ?_
  split
  · exact bind_onward (h block e (by simp only [need]; omega)) fun _ _ _ => rfl
  · rfl

private theorem methods_congr (h : Agrees go n (need c methods)) :
    body go methods c = body (reader n) methods c := by
  refine bind_ask ?_
  split
  · rfl
  · refine bind_agree (h (function "method") c (by simp only [need]; omega)) fun d hd => ?_
    have hlt := length_function hd
    exact bind_onward (h methods _ (by simp only [need, reader] at *; omega)) fun _ _ _ => rfl

private theorem classDecl_congr (h : Agrees go n (need c classDecl)) :
    body go classDecl c = body (reader n) classDecl c := by
  refine bind_onward rfl fun t d hd => bind_name fun x e he => bind_onward rfl fun p f hf => ?_
  refine bind_expect fun _ g hg => ?_
  exact bind_onward (h methods g (by simp only [need]; omega)) fun _ _ _ => rfl

private theorem statement_congr (h : Agrees go n (need c statement)) :
    body go statement c = body (reader n) statement c := by
  refine bind_ask ?_
  generalize c.kind = k
  split
  · rfl
  · exact h ifStmt c (by simp only [need]; omega)
  · exact h whileStmt c (by simp only [need]; omega)
  · exact h forStmt c (by simp only [need]; omega)
  · rfl
  · exact bind_onward (h block c (by simp only [need]; omega)) fun _ _ _ => rfl
  · rfl

private theorem ifStmt_congr (h : Agrees go n (need c ifStmt)) :
    body go ifStmt c = body (reader n) ifStmt c := by
  refine bind_onward rfl fun t d hd => bind_expect fun _ e he =>
    bind_onward rfl fun condition f hf => ?_
  refine bind_expect fun _ g hg => ?_
  refine bind_onward (h statement g (by simp only [need]; omega)) fun yes i hi => ?_
  refine bind_eatKeyword (fun j hj => ?_) rfl
  exact bind_onward (map_agree (h statement j (by simp only [need]; omega))) fun _ _ _ => rfl

private theorem whileStmt_congr (h : Agrees go n (need c whileStmt)) :
    body go whileStmt c = body (reader n) whileStmt c := by
  refine bind_onward rfl fun t d hd => bind_expect fun _ e he =>
    bind_onward rfl fun condition f hf => ?_
  refine bind_expect fun _ g hg => ?_
  exact bind_onward (h statement g (by simp only [need]; omega)) fun _ _ _ => rfl

private theorem forStmt_congr (h : Agrees go n (need c forStmt)) :
    body go forStmt c = body (reader n) forStmt c := by
  refine bind_onward rfl fun t d hd => bind_expect fun _ e he =>
    bind_onward rfl fun initial f hf => ?_
  refine bind_onward rfl fun condition g hg => bind_expect fun _ i hi =>
    bind_onward rfl fun increment j hj => ?_
  refine bind_expect fun _ k hk => ?_
  exact bind_onward (h statement k (by simp only [need]; omega)) fun _ _ _ => rfl

private theorem topLevel_congr (h : Agrees go n (need c topLevel)) :
    body go topLevel c = body (reader n) topLevel c := by
  refine bind_ask ?_
  split
  · rfl
  · rename_i hstop
    have hc : c.rest ≠ [] := fun hc => hstop (by simp [Cursor.atEnd, hc])
    have hd :=
      (Twins.nextDeclaration Likeness.numbers_same (fun _ ht => by cases ht) c.like_self).2 hc
    refine bind_agree rfl fun s _ => ?_
    exact bind_onward (h topLevel _ (by simp only [need, attempt]; omega)) fun _ _ _ => rfl

end

/-- What stands for the calls matters only where less fuel is needed. -/
theorem body_congr (r : Reading α) (h : Agrees go n (r.need c)) (hn : r.need c ≤ n + 1) :
    body go r c = body (reader n) r c := by
  cases r with
  | assignment => exact assignment_congr h
  | level l => exact level_congr l h
  | moreOperands l left => exact moreOperands_congr l left h
  | operand l => exact operand_congr l h
  | unary => exact unary_congr h
  | calls e => exact calls_congr e h
  | arguments count => exact arguments_congr count h
  | primary => exact primary_congr h
  | parameters count => exact parameters_congr count h
  | declaration => exact declaration_congr h
  | declarations => exact declarations_congr h hn
  | block => exact block_congr h
  | function sort => exact function_congr sort h
  | methods => exact methods_congr h
  | classDecl => exact classDecl_congr h
  | statement => exact statement_congr h
  | ifStmt => exact ifStmt_congr h
  | whileStmt => exact whileStmt_congr h
  | forStmt => exact forStmt_congr h
  | topLevel => exact topLevel_congr h
  | _ => rfl

/-! ### The recursion ends -/

/-- The equations, unrolled `n` times, with `go` for the calls that are deeper. -/
def unrolled (go : Calls) : Nat → Calls
  | 0 => go
  | n + 1 => body (unrolled go n)

/-- Whatever stands for the deeper calls, the equations give what the readers give with any
fuel that is enough. -/
theorem unrolled_eq_reader (go : Calls) {n m : Nat} (r : Reading α) (hn : r.need c ≤ n)
    (hm : r.need c ≤ m) : r.unrolled go n c = r.reader m c := by
  induction n generalizing α c m with
  | zero => exact absurd (r.need_pos c) (by omega)
  | succ n ih =>
    obtain ⟨m, rfl⟩ := Nat.exists_eq_add_of_lt (Nat.lt_of_lt_of_le (r.need_pos c) hm)
    rw [Nat.zero_add] at hm ⊢
    rw [reader_succ]
    exact body_congr r (fun s d hs => ih s (by omega) (by omega)) hm

theorem reader_eq_read {n : Nat} (r : Reading α) (hn : r.need c ≤ n) : r.reader n c = r.read c :=
  (unrolled_eq_reader (reader 0) r hn hn).symm.trans
    (unrolled_eq_reader (reader 0) r hn (Nat.le_refl _))

/-- The recursion ends. -/
theorem unrolled_eq_read {n : Nat} (r : Reading α) (hn : r.need c ≤ n) :
    r.unrolled go n c = r.read c :=
  unrolled_eq_reader go r hn (Nat.le_refl _)

/-- The readers solve the equations. -/
theorem body_read (r : Reading α) (c : Cursor) : body read r c = r.read c := by
  rw [← reader_eq_read r (Nat.le_succ (r.need c)), reader_succ]
  exact body_congr r (fun s d hs => (reader_eq_read s (Nat.le_of_lt hs)).symm) (Nat.le_succ _)

end Reading

end Lox
