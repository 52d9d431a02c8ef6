import Lox.Proofs.Reading.Termination
/-!
# Progress in reading

A cursor only moves on, up to the first mark at the end and not past it. Every declaration moves it,
and a reader that fails has reported an error. So a list of tokens is always read to an end, and if
no error was found, then every declaration in it was read.
-/

namespace Lox

namespace Reader

variable {α β : Type} {r : Reader α} {f : α → Reader β} {c d : Cursor}

/-! ### Failures are reported -/

/-- `r` reports an error when it fails. -/
class Reports (r : Reader α) : Prop where
  keeps : ∀ c, r.Keeps c

theorem Keeps.congr {s : Reader α} (h : r.Keeps c) (hs : s c = r c) : s.Keeps c :=
  ⟨hs ▸ h.shorter, hs ▸ h.errors, hs ▸ h.fails⟩

instance (a : α) : (pure a : Reader α).Reports := ⟨fun _ => .of_some rfl (Nat.le_refl _) rfl⟩

instance (g : Cursor → α) : (ask g).Reports := ⟨fun _ => .of_some rfl (Nat.le_refl _) rfl⟩

instance : previous.Reports := inferInstanceAs (ask Cursor.previous).Reports

instance : here.Reports := inferInstanceAs (ask Cursor.span).Reports

instance (s : Symbol) : (isSymbol s).Reports := inferInstanceAs (ask (·.isSymbol s)).Reports

instance (s : Span) : (site s).Reports := ⟨fun _ => .of_some rfl (Nat.le_refl _) rfl⟩

/-- A reader that does not fail reports whatever it has to. -/
theorem reports_of_some [r.Onward] (h : ∀ c, (r c).1 ≠ none) : r.Reports := ⟨fun c =>
  ⟨(Onward.ahead (r := r) c).length, (Onward.errors (r := r) c).length_le,
    fun hn => absurd hn (h c)⟩⟩

instance (p : SyntaxProblem) : (report p).Reports := reports_of_some nofun

instance (p : SyntaxProblem) (s : Span) : (change (·.reportAt p s)).Reports := reports_of_some nofun

instance : advance.Reports := reports_of_some nofun

instance (s : Symbol) : (eat s).Reports := reports_of_some fun c => by
  unfold eat
  split <;> nofun

instance (w : Keyword) : (eatKeyword w).Reports := reports_of_some fun c => by
  unfold eatKeyword
  split <;> nofun

instance (s : Symbol) (place : String) : (expect s place).Reports := ⟨fun c =>
  (Twins.expect (C := True) c.like_self s place).toKeeps⟩

instance (role : String) : (name role).Reports :=
  ⟨fun c => (Twins.name (C := True) c.like_self role).toKeeps⟩

instance (p : SyntaxProblem) : (report p >>= fun _ => (fail : Reader α)).Reports := ⟨fun _ =>
  .of_missing (p := p) rfl⟩

instance [hr : r.Reports] [hf : ∀ a, (f a).Reports] : (r >>= f).Reports := ⟨fun c =>
  (hr.keeps c).bind fun a _ => (hf a).keeps _⟩

theorem reports_ask_bind {g : Cursor → α} (h : ∀ a, (f a).Reports) : (ask g >>= f).Reports :=
  inferInstance

instance [hr : r.Reports] : (attempt r).Reports :=
  ⟨fun c => ⟨(hr.keeps c).shorter, (hr.keeps c).errors, nofun⟩⟩

instance {g : α → β} [r.Reports] : (g <$> r).Reports :=
  inferInstanceAs (r >>= fun a => pure (g a)).Reports

instance {p : Prop} [Decidable p] {s : Reader α} [r.Reports] [s.Reports] :
    (if p then r else s).Reports := by
  split <;> assumption

instance (l : Expr) (op : InfixOp) (t : Span) (e : Expr) : (infixNode l op t e).Reports := by
  cases op <;> unfold infixNode <;> infer_instance

instance (e : Expr) (t : Span) (v : Expr) : (assignNode e t v).Reports := by
  unfold assignNode
  split <;> infer_instance

instance (start : Span) (v : Option Literal) : (literalOf start v).Reports := by
  cases v <;> unfold literalOf <;> infer_instance

instance : expression.Reports :=
  ⟨fun c => (Twins.expression Likeness.numbers_same c.like_self).toKeeps⟩

instance (s : Symbol) : (expressionUnless s).Reports := by unfold expressionUnless; infer_instance

instance : someParameters.Reports := ⟨fun c =>
  (Twins.parameters (c.rest.length + 1) 0 c.like_self (Nat.le_refl _)
    (Nat.le_refl _)).toKeeps.congr rfl⟩

instance (ps : List Ident) : (parametersEnd ps).Reports := by unfold parametersEnd; infer_instance

instance (sort : String) : (parameterList sort).Reports := by
  rw [parameterList_eq]
  infer_instance

instance : varDecl.Reports := by unfold varDecl; infer_instance

instance : printStmt.Reports := by unfold printStmt; infer_instance

instance : returnStmt.Reports := by unfold returnStmt; infer_instance

instance : expressionStmt.Reports := by unfold expressionStmt; infer_instance

instance : forInitial.Reports := by unfold forInitial; infer_instance

instance : nextDeclaration.Reports := ⟨keeps_nextDeclaration⟩

instance : superclass.Reports := by unfold superclass; infer_instance

instance (start : Span) (e : Expr) (yes : Stmt) (no : Option Stmt) :
    (ifEnd start e yes no).Reports := by
  unfold ifEnd
  infer_instance

instance (start : Span) (i : Option Stmt) (t : Span) (d : Option Expr) (b : Stmt)
    (e : Option Expr) : (forEnd start i t d b e).Reports := by
  cases e <;> unfold forEnd <;> infer_instance

end Reader

namespace Reading

open Reader

variable {α : Type}

instance (r : Reading α) : r.read.Onward := onward_fuelled (r := fun n => r.reader n) r.need

section

variable (go : Calls) [hgo : ∀ {β : Type} (s : Reading β), (go s).Reports]

include hgo

/-- Readers report their failures if the readers that they call do. -/
theorem reports_body (r : Reading α) : (body go r).Reports := by
  cases r with
  | moreOperands | unary | statement =>
    simp only [body]
    refine reports_ask_bind fun k => ?_
    split <;> infer_instance
  | primary =>
    simp only [body]
    refine reports_ask_bind fun start => reports_ask_bind fun k => ?_
    split <;> infer_instance
  | operand =>
    simp only [body]
    split <;> infer_instance
  | declaration =>
    have hkind : ∀ k, (declarationBody go k).Reports := by
      intro k
      unfold declarationBody
      split <;> infer_instance
    refine ⟨fun c => ?_⟩
    have hrest := (((hkind c.kind).keeps c).congr rfl).recovered
    exact hrest.congr rfl
  | _ =>
    simp only [body]
    infer_instance

end

/-- A reader that stands for calls that are too deep, and reports that. -/
def tooDeep : Calls := fun _ c => (none, c.reportHere .expectedExpression)

instance (r : Reading α) : (tooDeep r).Reports := ⟨fun _ => .of_missing rfl⟩

private theorem reports_unrolled (n : Nat) (r : Reading α) : (r.unrolled tooDeep n).Reports := by
  induction n generalizing α with
  | zero => exact inferInstanceAs (tooDeep r).Reports
  | succ n ih =>
    have hgo : ∀ {β : Type} (s : Reading β), (s.unrolled tooDeep n).Reports := ih
    exact reports_body (fun s => s.unrolled tooDeep n) r

/-- A reader that fails has reported an error. -/
theorem keeps_read (r : Reading α) (c : Cursor) : r.read.Keeps c :=
  ((reports_unrolled (r.need c) r).keeps c).congr (unrolled_eq_read r (Nat.le_refl _)).symm

end Reading

/-! ### Where a cursor stands -/

/-- Tokens with a mark at the end, which is added if they have none there. -/
def Token.marked (tokens : List Token) : List Token :=
  if tokens.getLast?.any (·.kind.isEof) then tokens
  else tokens ++ [⟨.eof, (tokens.getLast?.map Token.span).getD (.point .start)⟩]

namespace Cursor

variable {tokens : List Token} {i : Nat} {c d : Cursor}

/-- How many of the tokens have been read. -/
def index (tokens : List Token) (c : Cursor) : Nat :=
  (tokens.takeWhile fun t => !t.kind.isEof).length - c.rest.length

/-- The cursor stands at its index among the tokens, and no mark is before that. -/
structure On (tokens : List Token) (c : Cursor) : Prop where
  next : (Token.marked tokens)[c.index tokens]? = some ⟨c.kind, c.span⟩
  before : ∀ t ∈ (Token.marked tokens).take (c.index tokens), t.kind.isEof = false
  previous : some c.previous =
    if c.index tokens = 0 then some (.point .start)
    else (Token.marked tokens)[c.index tokens - 1]?.map Token.span

/-- The tokens before the first mark, and that mark. -/
theorem marked_eq (tokens : List Token) (i : Nat) :
    ∃ more, Token.marked tokens =
      (ofTokens tokens i).rest ++ ⟨.eof, (ofTokens tokens i).finish⟩ :: more := by
  have happend :=
    List.takeWhile_append_dropWhile (p := fun t : Token => !t.kind.isEof) (l := tokens)
  cases hdrop : tokens.dropWhile fun t => !t.kind.isEof with
  | nil =>
    rw [hdrop, List.append_nil] at happend
    have hlast : ¬ tokens.getLast?.any (·.kind.isEof) = true := by
      intro h
      obtain ⟨t, ht, heof⟩ := (Option.any_eq_true ..).mp h
      have hall :=
        List.all_eq_true.mp (List.all_takeWhile (p := fun t : Token => !t.kind.isEof)
          (l := tokens)) t
        (happend.symm ▸ List.mem_of_getLast? ht)
      simp [heof] at hall
    refine ⟨[], ?_⟩
    simp only [Token.marked, if_neg hlast, ofTokens, hdrop, happend]
  | cons t more =>
    have heof : t.kind.isEof = true := by
      have hhead := List.head?_dropWhile_not (fun t : Token => !t.kind.isEof) tokens
      rw [hdrop] at hhead
      simpa using hhead
    have ht : t = ⟨.eof, t.span⟩ := by
      obtain ⟨k, s⟩ := t
      cases k <;> cases heof
      rfl
    rw [hdrop, ht] at happend
    have htokens : ∃ more', Token.marked tokens = tokens ++ more' := by
      unfold Token.marked
      split
      · exact ⟨[], (List.append_nil _).symm⟩
      · exact ⟨_, rfl⟩
    obtain ⟨more', hmarked⟩ := htokens
    refine ⟨more ++ more', ?_⟩
    have hfirst : tokens ++ more' =
        tokens.takeWhile (fun t => !t.kind.isEof) ++ ⟨.eof, t.span⟩ :: (more ++ more') := by
      conv_lhs => rw [← happend, List.append_assoc, List.cons_append]
    simpa only [ofTokens, hdrop, hmarked] using hfirst

private theorem kind_rest_ofTokens (tokens : List Token) (i : Nat) :
    ∀ t ∈ (ofTokens tokens i).rest, t.kind.isEof = false :=
  fun t ht => by simpa using List.all_eq_true.mp List.all_takeWhile t ht

/-- Reading on from the first token never leaves the tokens. -/
theorem Ahead.on (h : (ofTokens tokens i).Ahead c) : c.On tokens := by
  obtain ⟨ts, hts, hprevious⟩ := h.rest
  obtain ⟨more, hmarked⟩ := marked_eq tokens i
  have hindex : c.index tokens = ts.length := by
    change (ofTokens tokens i).rest.length - c.rest.length = ts.length
    simp [hts]
  have hread : ∀ t ∈ ts, t.kind.isEof = false := fun t ht =>
    kind_rest_ofTokens tokens i t (hts ▸ List.mem_append_left _ ht)
  rw [hts, List.append_assoc, ← h.finish] at hmarked
  constructor
  · rw [hindex, hmarked, List.getElem?_append_right (Nat.le_refl _), Nat.sub_self]
    unfold kind span
    cases c.rest <;> rfl
  · rw [hindex, hmarked, List.take_left]
    exact hread
  · rw [hindex, hmarked, hprevious]
    obtain rfl | ⟨us, u, rfl⟩ := ts.eq_nil_or_concat
    · rfl
    · simp

private theorem Ahead.index_le (h : c.Ahead d) : c.index tokens ≤ d.index tokens :=
  Nat.sub_le_sub_left h.length _

private theorem Ahead.index_lt (h : (ofTokens tokens i).Ahead c)
    (hd : d.rest.length < c.rest.length) : c.index tokens < d.index tokens :=
  Nat.sub_lt_sub_left (Nat.lt_of_lt_of_le hd h.length) hd

end Cursor

/-! ### Nothing is left out -/

namespace Reader

variable {α : Type}

/-- `as` are read by `r` one after the other, from the first cursor up to the second one,
and `r` never fails. -/
inductive InTurn (r : Reader α) : Cursor → List α → Cursor → Prop
  | nil (c : Cursor) : InTurn r c [] c
  | cons {c d e : Cursor} {a : α} {as : List α} (h : r c = (some a, d)) (hrest : InTurn r d as e) :
    InTurn r c (a :: as) e

/-- `loop` reads with `r` until `stop` holds, and reads on after failures. -/
def Loops (r : Reader α) (stop : Cursor → Bool) (loop : Reader (List α)) : Prop :=
  ∀ c, loop c = (do
    if ← ask stop then pure []
    else
      let a ← attempt r
      let as ← loop
      pure (a.toList ++ as) : Reader (List α)) c

namespace Loops

variable {r : Reader α} {stop : Cursor → Bool} {loop : Reader (List α)} {c : Cursor}

theorem eq_of_stop (h : Loops r stop loop) (hstop : stop c = true) : loop c = (some [], c) := by
  rw [h, ask_bind, hstop]
  rfl

theorem eq_of_go (h : Loops r stop loop) (hstop : stop c = false) :
    loop c = ((loop (r c).2).1.map ((r c).1.toList ++ ·), (loop (r c).2).2) := by
  rw [h, ask_bind, hstop]
  change (attempt r >>= fun a => loop >>= fun as => pure (a.toList ++ as)) c = _
  rw [bind_of_some (a := (r c).1) rfl]
  cases hl : (loop (r c).2).1 with
  | none => exact bind_of_none hl
  | some as => exact bind_of_some hl

variable (hmove : ∀ c, stop c = false → (r c).2.rest.length < c.rest.length)

include hmove

/-- A loop that moves on ends, where it has to stop. -/
theorem ends (h : Loops r stop loop) (c : Cursor) :
    ∃ as d, loop c = (some as, d) ∧ stop d = true := by
  induction hn : c.rest.length using Nat.strongRecOn generalizing c with
  | ind n ih =>
    cases hstop : stop c with
    | true => exact ⟨[], c, h.eq_of_stop hstop, hstop⟩
    | false =>
      obtain ⟨as, d, hd, hend⟩ := ih _ (hn ▸ hmove c hstop) _ rfl
      exact ⟨_, d, by rw [h.eq_of_go hstop, hd]; rfl, hend⟩

/-- If no error was found, then nothing has failed. -/
theorem inTurn (h : Loops r stop loop) [r.Reports] [loop.Onward] {as : List α} {d : Cursor}
    (hc : loop c = (some as, d)) (hclean : d.errors = #[]) : r.InTurn c as d := by
  induction hn : c.rest.length using Nat.strongRecOn generalizing c as with
  | ind n ih =>
    cases hstop : stop c with
    | true =>
      rw [h.eq_of_stop hstop] at hc
      cases hc
      exact .nil _
    | false =>
      rw [h.eq_of_go hstop, Prod.mk.injEq, Option.map_eq_some_iff] at hc
      obtain ⟨⟨as, has, rfl⟩, hd⟩ := hc
      have hturn := ih _ (hn ▸ hmove c hstop) (Prod.ext has hd) rfl
      -- An error of the first one would still be there.
      have hnone : (r c).2.errors = #[] := by
        have hprefix := (Onward.ahead (r := loop) (r c).2).errors
        rw [hd, hclean] at hprefix
        simpa using hprefix
      cases ha : (r c).1 with
      | none =>
        have hfails := (Reports.keeps (r := r) c).fails ha
        rw [hnone] at hfails
        exact absurd hfails (Nat.not_lt_zero _)
      | some a => exact .cons (Prod.ext ha rfl) hturn

end Loops

end Reader

namespace Reading

instance (r : Reading α) : r.read.Reports := ⟨r.keeps_read⟩

theorem loops_topLevel :
    Reader.Loops declaration.read (fun c => c.atEnd || c.tooManyErrors) topLevel.read := fun c =>
  (body_read topLevel c).symm

theorem loops_declarations :
    Reader.Loops declaration.read (fun c => c.isSymbol .rightBrace || c.atEnd ||
      c.tooManyErrors) declarations.read :=
  fun c => (body_read declarations c).symm

/-- Every declaration moves the cursor, be it in recovering. -/
theorem length_declaration {c : Cursor} (hc : c.atEnd = false) :
    (declaration.read c).2.rest.length < c.rest.length :=
  (Reader.Twins.nextDeclaration Likeness.numbers_same (fun _ ht => by cases ht) c.like_self).2
    (by simpa [Cursor.atEnd] using hc)

/-- What is read whole is read with fuel that is enough. -/
theorem whole_eq_read :
    Reader.expression = assignment.read ∧ Reader.someParameters = (parameters 0).read ∧
    Reader.nextDeclaration = declaration.read := by
  refine ⟨funext fun c => ?_, rfl, rfl⟩
  exact reader_eq_read (n := Reader.expressionFuel c) assignment
    (by simp only [need, Reader.expressionFuel]; omega)

end Reading

namespace Parsed

/-- Reading any tokens ends. It never leaves them, it never goes back, and every declaration moves
it on. A reader that fails has reported an error, so that without errors every declaration was read,
one after the other, at the outermost level up to the end and in a block up to its closing brace. -/
theorem progress (tokens : List Token) (firstId : Nat) :
    let start := Cursor.ofTokens tokens firstId
    (∀ {α : Type} (r : Reading α) (c : Cursor), Reading.body Reading.read r c = r.read c ∧
      ∀ (n : Nat) (go : Reading.Calls), r.need c ≤ n → r.unrolled go n c = r.read c) ∧
    (Reader.expression = Reading.assignment.read ∧
      Reader.someParameters = (Reading.parameters 0).read ∧
      Reader.nextDeclaration = Reading.declaration.read) ∧
    (∃ body finish, Reading.topLevel.read start = (some body, finish) ∧
      ofTokens tokens firstId =
        ⟨⟨body, start.span.merge finish.span⟩, finish.errors.toList, finish.nextId⟩ ∧
      (finish.errors = #[] → Reading.declaration.read.InTurn start body finish ∧
        finish.atEnd = true)) ∧
    ∀ c, start.Ahead c → c.On tokens ∧ start.Ahead c.advance ∧
      (∀ {α : Type} (r : Reading α), start.Ahead (r.read c).2 ∧
        c.index tokens ≤ (r.read c).2.index tokens ∧
        ((r.read c).1 = none → c.errors.size < (r.read c).2.errors.size)) ∧
      (c.atEnd = false → c.index tokens < (Reading.declaration.read c).2.index tokens) ∧
      ((Reading.declarations.read c).2.errors = #[] →
        ∃ body d, Reading.declarations.read c = (some body, d) ∧
          Reading.declaration.read.InTurn c body d ∧ (d.isSymbol .rightBrace || d.atEnd) = true) := by
  intro start
  refine ⟨fun r c => ⟨r.body_read c, fun n go hn => Reading.unrolled_eq_read r hn⟩,
    Reading.whole_eq_read, ?_,
    fun c hc => ⟨hc.on, hc.trans c.ahead_advance, fun r => ?_, fun hend => ?_, fun hclean => ?_⟩⟩
  · have hmove : ∀ c : Cursor, (c.atEnd || c.tooManyErrors) = false → _ := fun c hstop =>
      Reading.length_declaration (Bool.or_eq_false_iff.mp hstop).1
    obtain ⟨body, d, hd, hstop⟩ := Reading.loops_topLevel.ends hmove start
    refine ⟨body, d, hd, ?_, fun hclean => ⟨Reading.loops_topLevel.inTurn hmove hd hclean, ?_⟩⟩
    · have heq : Reader.topLevel (start.rest.length + 1) start = (some body, d) := hd
      simp only [ofTokens]
      rw [heq]
      rfl
    · simpa [Cursor.tooManyErrors, hclean, Diagnostics.limit] using hstop
  · have hahead := Reader.Onward.ahead (r := r.read) c
    exact ⟨hc.trans hahead, hahead.index_le, (r.keeps_read c).fails⟩
  · exact hc.index_lt (Reading.length_declaration hend)
  · have hmove : ∀ c : Cursor, (c.isSymbol .rightBrace || c.atEnd || c.tooManyErrors) = false →
        _ := fun c hstop =>
      Reading.length_declaration (Bool.or_eq_false_iff.mp (Bool.or_eq_false_iff.mp hstop).1).2
    obtain ⟨body, d, hd, hstop⟩ := Reading.loops_declarations.ends hmove c
    rw [hd] at hclean
    refine ⟨body, d, hd, Reading.loops_declarations.inTurn hmove hd hclean, ?_⟩
    simpa [Cursor.tooManyErrors, show d.errors = #[] from hclean, Diagnostics.limit] using hstop

/-- A statement that is cut off, and tokens after the mark at the end. -/
def cutTokens : List Token :=
  [⟨.keyword .print, .point ⟨1, 1⟩⟩, ⟨.symbol .semicolon, .point ⟨1, 6⟩⟩, ⟨.eof, .point ⟨1, 7⟩⟩,
    ⟨.keyword .var, .point ⟨1, 8⟩⟩]

/-- A whole statement without a mark at the end. -/
def wholeTokens : List Token :=
  [⟨.keyword .print, .point ⟨1, 1⟩⟩, ⟨.keyword .nil, .point ⟨1, 7⟩⟩,
    ⟨.symbol .semicolon, .point ⟨1, 10⟩⟩]

theorem progress_cut :
    let cut := Cursor.ofTokens cutTokens 7
    let whole := Cursor.ofTokens wholeTokens 7
    (cut.On cutTokens ∧ cut.errors.size < (Reading.declaration.read cut).2.errors.size ∧
      cut.index cutTokens < (Reading.declaration.read cut).2.index cutTokens) ∧
    (∃ body finish, Reading.topLevel.read whole = (some body, finish) ∧
      Reading.declaration.read.InTurn whole body finish ∧ finish.atEnd = true) ∧
    (∃ body d, Reading.declarations.read whole = (some body, d) ∧
      Reading.declaration.read.InTurn whole body d) ∧
    Reading.topLevel.unrolled Reading.tooDeep 4 whole = Reading.topLevel.read whole := by
  intro cut whole
  obtain ⟨-, -, -, hcut⟩ := progress cutTokens 7
  obtain ⟨hon, -, hread, hmove, -⟩ := hcut _ (.refl _)
  obtain ⟨hunrolled, -, ⟨body, finish, htop, -, hclean⟩, hwhole⟩ := progress wholeTokens 7
  obtain ⟨-, -, -, -, hdecls⟩ := hwhole _ (.refl _)
  have hfails : (Reading.declaration.read (Cursor.ofTokens cutTokens 7)).1.isNone = true := by
    decide +kernel
  have hnone : (Reading.topLevel.read (Cursor.ofTokens wholeTokens 7)).2.errors.size = 0 := by
    decide +kernel
  have hnone' : (Reading.declarations.read (Cursor.ofTokens wholeTokens 7)).2.errors.size = 0 := by
    decide +kernel
  rw [htop] at hnone
  refine ⟨⟨hon, (hread Reading.declaration).2.2 (Option.isNone_iff_eq_none.mp hfails), hmove rfl⟩,
    ⟨body, finish, htop, hclean (Array.eq_empty_of_size_eq_zero hnone)⟩, ?_,
    (hunrolled _ _).2 4 _ (by decide)⟩
  obtain ⟨body', d, hd, hturn, -⟩ := hdecls (Array.eq_empty_of_size_eq_zero hnone')
  exact ⟨body', d, hd, hturn⟩

end Parsed

end Lox
