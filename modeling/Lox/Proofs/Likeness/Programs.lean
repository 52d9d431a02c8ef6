import Lox.Proofs.Likeness.Statements
/-!
# Reading programs that are alike

Tokens that are alike are read as programs that are alike, with errors that are alike. And if tokens
are read without errors, then so are they with further tokens after them, up to where those begin:
what comes before is read as it was, and reading goes on with what comes after.
-/

namespace Lox

variable {L : Likeness} {N : Nat → Nat → Prop} {us : Option (List Token)} {c c' : Cursor}

namespace Reader

/-- A declaration, with fuel that is enough for the tokens left. -/
def nextDeclaration : Reader Stmt := fun c => declaration (4 * (c.rest.length + 1)) c

theorem Twins.nextDeclaration (hN : L.Numbers N) (hus : Token.NoElse (us.getD []))
    (h : c.Like L N us c') :
    Twins L N us True nextDeclaration c nextDeclaration c' (Stmt.LikeFrom L c) ∧
      (c.rest ≠ [] → (Reader.nextDeclaration c).2.rest.length < c.rest.length) := by
  obtain ⟨ht, hlt⟩ := (statementTwins hN hus (4 * (c.rest.length + 1))).declaration h
    (m := 4 * (c'.rest.length + 1)) (Nat.le_refl _) (Nat.le_refl _)
  exact ⟨ht.congr rfl rfl, hlt⟩

theorem topLevel_stop {n : Nat} (h : (c.atEnd || c.tooManyErrors) = true) :
    topLevel (n + 1) c = (some [], c) := by
  rw [topLevel, ask_bind, h]
  rfl

theorem topLevel_go {n : Nat} (h : (c.atEnd || c.tooManyErrors) = false) :
    topLevel (n + 1) c =
      ((topLevel n (nextDeclaration c).2).1.map ((nextDeclaration c).1.toList ++ ·),
        (topLevel n (nextDeclaration c).2).2) := by
  rw [topLevel, ask_bind, h]
  change (attempt nextDeclaration >>= fun s => topLevel n >>=
      fun ss => Pure.pure (s.toList ++ ss)) c = _
  rw [bind_of_some (a := (nextDeclaration c).1) rfl]
  change (topLevel n >>= _) (nextDeclaration c).2 = _
  cases ht : (topLevel n (nextDeclaration c).2).1 with
  | none => rw [bind_of_none ht]; rfl
  | some ss => rw [bind_of_some ht]; rfl

private theorem ends_topLevel (hc : c.rest = []) {n : Nat} (hn : 1 ≤ n) :
    (topLevel n).Ends False c := by
  obtain ⟨n, rfl⟩ := Nat.exists_eq_add_of_le' hn
  exact (ends_pure (a := []) hc).congr (topLevel_stop (by simp [Cursor.atEnd, hc]))

/-- Programs that are alike and end together. -/
theorem Twins.topLevel (hN : L.Numbers N) {n n' : Nat} (h : c.Like L N none c')
    (hn : c.rest.length + 1 ≤ n) (hn' : c'.rest.length + 1 ≤ n') :
    Twins L N none False (topLevel n) c (topLevel n') c' fun ss ss' _ =>
      List.Forall₂ (Stmt.Like L) ss ss' := by
  induction n generalizing n' c c' with
  | zero => omega
  | succ n ih =>
    obtain ⟨n', rfl⟩ := Nat.exists_eq_add_of_le' (Nat.le_trans (Nat.le_add_left 1 _) hn')
    have hl : ¬ c.Lost none := fun hl => hl.1 rfl
    rw [Reader.topLevel, Reader.topLevel]
    refine .peek (fun hl => by
      rw [h.atEnd hl, h.tooManyErrors]) (fun hl' => absurd hl' hl) fun _ => ?_
    split
    · exact .pure h .nil
    · rename_i hstop
      have hc : c.rest ≠ [] := fun hc => hstop (by simp [Cursor.atEnd, hc])
      obtain ⟨hdecl, hlt⟩ := Twins.nextDeclaration hN (fun _ ht => by cases ht) h
      have hlt := hlt hc
      have hlen := h.length
      refine hdecl.attempt.bind (fun _ o d hd => ?_) fun o o' d d' hd _ ho => ?_
      · exact (ends_topLevel hd (by omega)).bind fun _ ss e _ he => ends_pure he
      · obtain ⟨rfl, ho⟩ := ho
        have hlen' := hd.length
        refine (ih hd (by omega) (by omega)).bind (fun _ ss e he => ends_pure he)
          fun ss ss' e e' he _ hss => .pure he ?_
        cases ho with
        | none => exact hss
        | some hs => exact .cons hs.1 hss

/-! ### What a single text keeps -/

end Reader

theorem Likeness.numbers_same : same.Numbers Eq :=
  ⟨fun h => h, congrArg (· + 1), by rintro s _ t _ rfl rfl; rfl⟩

theorem Cursor.like_self (c : Cursor) : c.Like .same Eq none c where
  rest := ⟨c.rest, List.forall₂_same.mpr fun _ _ => ⟨rfl, rfl⟩, (List.append_nil _).symm⟩
  previous := rfl
  finish _ := rfl
  errors := List.forall₂_same.mpr fun _ _ => ⟨rfl, rfl⟩
  nextId := rfl

namespace Reader

theorem keeps_nextDeclaration (c : Cursor) : nextDeclaration.Keeps c :=
  (Twins.nextDeclaration Likeness.numbers_same (fun _ ht => by cases ht) c.like_self).1.toKeeps

theorem keeps_topLevel {n : Nat} (hn : c.rest.length + 1 ≤ n) : (topLevel n).Keeps c :=
  (Twins.topLevel Likeness.numbers_same c.like_self hn hn).toKeeps

/-- When no error is found, the first declaration is read. -/
theorem exists_nextDeclaration {n : Nat} (hn : c.rest.length ≤ n) (hc : c.rest ≠ [])
    (hclean : (topLevel (n + 1) c).2.errors = #[]) :
    (c.atEnd || c.tooManyErrors) = false ∧ (nextDeclaration c).2.rest.length < c.rest.length ∧
      (topLevel n (nextDeclaration c).2).2.errors = #[] ∧ ∃ s, (nextDeclaration c).1 = some s := by
  have hkeeps := keeps_nextDeclaration c
  have hlt :=
    (Twins.nextDeclaration Likeness.numbers_same (fun _ ht => by cases ht) c.like_self).2 hc
  have hsize : c.errors.size = 0 := by
    have hle := (keeps_topLevel (Nat.succ_le_succ hn)).errors
    rwa [hclean, Array.size_empty, Nat.le_zero] at hle
  have hgo : (c.atEnd || c.tooManyErrors) = false := by
    simp [Cursor.atEnd, Cursor.tooManyErrors, hc, hsize, Diagnostics.limit]
  rw [topLevel_go hgo] at hclean
  refine ⟨hgo, hlt, hclean,
    Option.isSome_iff_exists.mp (Option.isSome_iff_ne_none.mpr fun hnone => ?_)⟩
  have hfails := hkeeps.fails hnone
  have hle := (keeps_topLevel (c := (nextDeclaration c).2) (Nat.le_trans hlt hn)).errors
  rw [hclean, Array.size_empty] at hle
  omega

/-- What comes before `us` is read as it was, and reading goes on there. -/
theorem topLevel_prefix (hN : L.Numbers N) (hus : Token.NoElse (us.getD [])) {n n' : Nat}
    (h : c.Like L N us c') (hn : c.rest.length + 1 ≤ n) (hn' : c'.rest.length + 1 ≤ n')
    (hclean : (topLevel n c).2.errors = #[]) :
    ∃ ss ss' d' m, (topLevel n c).1 = some ss ∧ List.Forall₂ (Stmt.Like L) ss ss' ∧
      (topLevel n c).2.rest = [] ∧ (topLevel n c).2.Like L N us d' ∧ d'.rest.length + 1 ≤ m ∧
      topLevel n' c' = ((topLevel m d').1.map (ss' ++ ·), (topLevel m d').2) := by
  induction n generalizing n' c c' with
  | zero => omega
  | succ n ih =>
    by_cases hc : c.rest = []
    · rw [topLevel_stop (c := c) (n := n) (by simp [Cursor.atEnd, hc])]
      exact ⟨[], [], c', n', rfl, .nil, hc, h, hn', by simp⟩
    · obtain ⟨n', rfl⟩ := Nat.exists_eq_add_of_le' (Nat.le_trans (Nat.le_add_left 1 _) hn')
      have hl : ¬ c.Lost us := fun hl => hc hl.2
      obtain ⟨hgo, hlt, hrest, s, hs⟩ :=
        exists_nextDeclaration (Nat.le_of_succ_le_succ hn) hc hclean
      have hgo' : (c'.atEnd || c'.tooManyErrors) = false := by rwa [h.atEnd hl, h.tooManyErrors]
      obtain ⟨-, hnone⟩ | ⟨hlike, ⟨hnone, -⟩ | ⟨_, s', hs₁, hs', hq⟩⟩ :=
        (Twins.nextDeclaration hN hus h).1.together
      · rw [hnone trivial] at hs
        cases hs
      · rw [hnone] at hs
        cases hs
      · have hlen := h.length
        have hlen' := hlike.length
        obtain ⟨ss, ss', d', m, hss, hlikes, hend, hd', hm, htop⟩ :=
          ih hlike (by omega) (show _ ≤ n' by omega) hrest
        rw [topLevel_go hgo, topLevel_go hgo', hs₁, hs', hss, htop]
        exact ⟨_, s' :: ss', d', m, rfl, .cons hq.1 hlikes, hend, hd', hm, by
          rw [Option.map_map]; rfl⟩

private theorem nextDeclaration_else (hk : c.kind = .keyword .else) :
    (nextDeclaration c).1 = none := by
  have he := expression_barren (.inr hk)
  have hs : (statement (4 * c.rest.length + 3) c).1 = none := by
    rw [statement, ask_bind, hk]
    change (expressionStmt c).1 = none
    rw [expressionStmt, bind_of_none (congrArg Prod.fst he)]
  change (declaration (4 * c.rest.length + 3 + 1) c).1 = none
  rw [StatementRuns.declaration_eq, hk]
  exact congrArg Prod.fst (recovered_of_none hs)

/-- What begins with an `else` is not read without errors. -/
theorem noElse_of_topLevel {n : Nat} (hn : c.rest.length + 1 ≤ n)
    (hclean : (topLevel n c).2.errors = #[]) : Token.NoElse c.rest := by
  intro t ht hk
  obtain ⟨n, rfl⟩ := Nat.exists_eq_add_of_le' (Nat.le_trans (Nat.le_add_left 1 _) hn)
  obtain ⟨rest, hrest⟩ := List.head?_eq_some_iff.mp ht
  have hkind : c.kind = .keyword .else := by
    rw [Cursor.kind, hrest]
    exact hk
  obtain ⟨-, -, -, s, hs⟩ :=
    exists_nextDeclaration (Nat.le_of_succ_le_succ hn) (by simp [hrest]) hclean
  rw [nextDeclaration_else hkind] at hs
  cases hs

end Reader

/-! ### Parsed tokens -/

/-- Two readings that are alike. -/
structure Parsed.Like (L : Likeness) (N : Nat → Nat → Prop) (p p' : Parsed) : Prop where
  body : List.Forall₂ (Stmt.Like L) p.program.body p'.program.body
  errors : List.Forall₂ L.Located p.errors p'.errors
  nextId : N p.nextId p'.nextId

namespace Reader

/-- What is read from two cursors with nothing after what they have in common. -/
theorem topLevel_like (hN : L.Numbers N) (h : c.Like L N none c') {n n' : Nat}
    (hn : c.rest.length + 1 ≤ n) (hn' : c'.rest.length + 1 ≤ n') :
    List.Forall₂ (Stmt.Like L) ((topLevel n c).1.getD []) ((topLevel n' c').1.getD []) ∧
      (topLevel n c).2.Like L N none (topLevel n' c').2 := by
  obtain ⟨hl, -⟩ | ⟨hlike, ⟨hn, hn'⟩ | ⟨ss, ss', hs, hs', hss⟩⟩ :=
    (Twins.topLevel hN h hn hn').together
  · exact absurd rfl hl.1
  · rw [hn, hn']
    exact ⟨.nil, hlike⟩
  · rw [hs, hs']
    exact ⟨hss, hlike⟩

end Reader

theorem Cursor.like_ofTokens (hs : ∀ t, L.span t t) (ts : List Token) {i i' : Nat} (hi : N i i') :
    (ofTokens ts i).Like L N none (ofTokens ts i') where
  rest := ⟨_, List.forall₂_same.mpr fun _ _ => ⟨rfl, hs _⟩, (List.append_nil _).symm⟩
  previous := hs _
  finish _ := hs _
  errors := .nil
  nextId := hi

/-- The same tokens, with other numbers. -/
theorem Parsed.like_ofTokens (hN : L.Numbers N) (hs : ∀ t, L.span t t) (ts : List Token)
    {i i' : Nat} (hi : N i i') : (ofTokens ts i).Like L N (ofTokens ts i') := by
  obtain ⟨hbody, hlike⟩ :=
    Reader.topLevel_like hN (Cursor.like_ofTokens hs ts hi) (Nat.le_refl _) (Nat.le_refl _)
  exact ⟨hbody, hlike.errors, hlike.nextId⟩

/-- The tokens of a text: none of them is the mark at the end, but that comes last. -/
structure Token.Text (ts : List Token) (e : Token) : Prop where
  inner : ∀ t ∈ ts, t.kind.isEof = false
  last : e.kind.isEof = true

theorem Cursor.ofTokens_text {ts : List Token} {e : Token} (h : Token.Text ts e) (i : Nat) :
    ofTokens (ts ++ [e]) i = ⟨ts, .point .start, e.span, #[], i⟩ := by
  have htake : (ts ++ [e]).takeWhile (fun t => !t.kind.isEof) = ts := by
    rw [List.takeWhile_append_of_pos fun t ht => by simp [h.inner t ht]]
    simp [h.last]
  have hdrop : (ts ++ [e]).dropWhile (fun t => !t.kind.isEof) = [e] := by
    rw [List.dropWhile_append_of_pos fun t ht => by simp [h.inner t ht]]
    simp [h.last]
  rw [ofTokens, htake, hdrop]

/-- The spans may differ, the numbers may not. -/
def Likeness.moved : Likeness := .agreeing (fun _ _ => True) Eq

private theorem Likeness.numbers_moved : moved.Numbers Eq :=
  ⟨fun h => h, congrArg (· + 1), fun _ _ => trivial⟩

theorem Token.NoElse.like {us us' : List Token} (h : NoElse us)
    (hlike : List.Forall₂ (Token.Like L) us us') : NoElse us' := by
  cases hlike with
  | nil => exact h
  | cons hu _ =>
    rintro t ⟨⟩
    rw [hu.kind]
    exact h _ rfl

namespace Parsed

open Reader

variable {ts us us' : List Token} {e f f' : Token}

/-- The tokens of two texts, one after the other, make one program of the two. -/
theorem ofTokens_append (hts : Token.Text ts e) (hus : Token.Text us f)
    (hus' : Token.Text (ts ++ us') f') (hlike : List.Forall₂ (Token.Like .moved) us us') {i : Nat}
    (ha : (ofTokens (ts ++ [e]) i).errors = [])
    (hb : (ofTokens (us ++ [f]) (ofTokens (ts ++ [e]) i).nextId).errors = []) :
    ∃ ss, (ofTokens (ts ++ us' ++ [f']) i).program.body =
      (ofTokens (ts ++ [e]) i).program.body ++ ss ∧
      List.Forall₂ (Stmt.Like .moved)
        (ofTokens (us ++ [f]) (ofTokens (ts ++ [e]) i).nextId).program.body ss ∧
      (ofTokens (ts ++ us' ++ [f']) i).errors = [] ∧
      (ofTokens (ts ++ us' ++ [f']) i).nextId =
        (ofTokens (us ++ [f]) (ofTokens (ts ++ [e]) i).nextId).nextId := by
  simp only [ofTokens, Cursor.ofTokens_text hts, Cursor.ofTokens_text hus,
    Cursor.ofTokens_text hus'] at ha hb ⊢
  have hclean := Array.toList_eq_nil_iff.mp ha
  have hfirst : Cursor.Like .same Eq (some us') ⟨ts, .point .start, e.span, #[], i⟩
      ⟨ts ++ us', .point .start, f'.span, #[], i⟩ :=
    ⟨⟨ts, List.forall₂_same.mpr fun _ _ => ⟨rfl, rfl⟩, rfl⟩, rfl, by simp, .nil, rfl⟩
  have helse : Token.NoElse ((some us').getD []) :=
    (noElse_of_topLevel (Nat.le_refl _) (Array.toList_eq_nil_iff.mp hb)).like hlike
  obtain ⟨ss, ss', d', m, hss, hsame, hend, hd', hm, htop⟩ :=
    topLevel_prefix Likeness.numbers_same helse hfirst (Nat.le_refl _) (Nat.le_refl _) hclean
  -- The first text is read as it is alone, up to the cursor from which the second is read
  -- with other spans.
  obtain rfl := Stmt.eq_of_forall₂_like Likeness.exact_same _ _ hsame
  obtain ⟨ts', hts', hrest⟩ := hd'.rest
  rw [hend] at hts'
  cases hts'
  have herrors := hd'.errors
  rw [ha] at herrors
  have hsecond : Cursor.Like .moved Eq none
      ⟨us, .point .start, f.span, #[],
        (topLevel (ts.length + 1) ⟨ts, .point .start, e.span, #[], i⟩).2.nextId⟩
      d' :=
    ⟨⟨us', hlike, hrest.trans (List.append_nil _).symm⟩, trivial, fun _ => trivial,
      by rw [List.forall₂_nil_left_iff.mp herrors]; exact .nil, hd'.nextId⟩
  obtain ⟨hbody, hlast⟩ := topLevel_like Likeness.numbers_moved hsecond (Nat.le_refl _) hm
  have hnone := hlast.errors
  rw [hb] at hnone
  have hnone := List.forall₂_nil_left_iff.mp hnone
  -- A reader that fails reports an error, and here there is none.
  obtain ⟨tt, htt⟩ : ∃ tt, (topLevel m d').1 = some tt := by
    refine Option.isSome_iff_exists.mp (Option.isSome_iff_ne_none.mpr fun hn => ?_)
    have hfails := (keeps_topLevel hm).fails hn
    rw [Array.toList_eq_nil_iff.mp hnone, Array.size_empty] at hfails
    exact absurd hfails (Nat.not_lt_zero _)
  rw [htt] at hbody
  rw [htop, hss, htt]
  exact ⟨tt, rfl, hbody, hnone, hlast.nextId.symm⟩

end Parsed

end Lox
