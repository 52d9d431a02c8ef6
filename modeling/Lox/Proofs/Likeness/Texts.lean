import Lox.Proofs.Likeness.Programs
import Lox.Proofs.Reading.Text
/-!
# Texts one after the other

No token reaches over a line feed unless it is a string, and a string that ends before it ends
there also when more text follows. So if the text before a line feed has no lexical errors, its
tokens do not depend on what comes after it, and the tokens of what comes after it are the same as
alone, only further down.
-/

namespace Lox

namespace Piece

def IsError (p : Piece) : Prop := ∃ e, p.meaning = .error e

section

variable {P : Char → Bool} (hP : P '\n' = false) (cs ds : List Char)

include hP

theorem takeWhile_break : (cs ++ '\n' :: ds).takeWhile P = cs.takeWhile P := by
  induction cs with
  | nil => simp [hP]
  | cons c cs ih => simp only [List.cons_append, List.takeWhile_cons, ih]

private theorem dropWhile_break :
    (cs ++ '\n' :: ds).dropWhile P = cs.dropWhile P ++ '\n' :: ds := by
  induction cs with
  | nil => simp [hP]
  | cons c cs ih =>
    simp only [List.cons_append, List.dropWhile_cons, ih]
    split <;> rfl

end

/-! ### The first piece -/

private theorem fraction?_break (cs ds : List Char) :
    fraction? (cs ++ '\n' :: ds) = fraction? cs := by
  cases cs with
  | nil => rfl
  | cons c cs =>
    by_cases hc : c = '.'
    · subst hc
      cases cs with
      | nil => rfl
      | cons d cs =>
        simp only [List.cons_append, fraction?, takeWhile_break (P := Char.isDigit) rfl]
    · simp [fraction?, hc]

private theorem number_break (c : Char) (cs ds : List Char) :
    number c (cs ++ '\n' :: ds) = number c cs := by
  rw [number, number, takeWhile_break rfl, dropWhile_break rfl, fraction?_break]

private theorem word_break (c : Char) (cs ds : List Char) :
    word c (cs ++ '\n' :: ds) = word c cs := by
  rw [word, word, takeWhile_break (by decide)]

private theorem comment_break (cs ds : List Char) : comment (cs ++ '\n' :: ds) = comment cs := by
  rw [comment, comment, takeWhile_break (by decide)]

private theorem head?_break {c : Char} (hc : c ≠ '\n') (cs ds : List Char) :
    (cs ++ '\n' :: ds).head? = some c ↔ cs.head? = some c := by
  cases cs with
  | nil => simpa using hc.symm
  | cons d cs => rfl

private theorem symbol_break (c : Char) (s : Symbol) (cs ds : List Char) :
    symbol c s (cs ++ '\n' :: ds) = symbol c s cs := by
  cases cs with
  | nil => unfold symbol; cases s.withEq? <;> rfl
  | cons d cs => rfl

/-- A string that ends before the line feed. -/
theorem string_break {cs : List Char} (h : ¬ (string cs).IsError) (ds : List Char) :
    string (cs ++ '\n' :: ds) = string cs := by
  -- The closing quote is found among the characters before the line feed.
  have hlt : (cs.takeWhile (· ≠ '"')).length < cs.length := by
    by_contra hge
    exact h ⟨.unterminatedString, by rw [string, if_neg hge]⟩
  have htake : (cs ++ '\n' :: ds).takeWhile (· ≠ '"') = cs.takeWhile (· ≠ '"') := by
    rw [List.takeWhile_append, if_neg hlt.ne]
  have hlt' : (cs.takeWhile (· ≠ '"')).length < (cs ++ '\n' :: ds).length := by
    rw [List.length_append]
    omega
  rw [string, string, htake, if_pos hlt, if_pos hlt']

/-- The first piece, unless it is an error, does not depend on what comes after the line feed. -/
theorem first_break {c : Char} {cs : List Char} (h : ¬ (first c cs).IsError) (ds : List Char) :
    first c (cs ++ '\n' :: ds) = first c cs := by
  simp only [first, number_break, word_break, comment_break, symbol_break,
    head?_break (show '/' ≠ '\n' by decide)] at h ⊢
  split
  · rfl
  rename_i hblank
  split
  · rfl
  rename_i hcomment
  split
  · rename_i hquote
    rw [if_neg hblank, if_neg hcomment, if_pos hquote] at h
    exact string_break h ds
  · rfl

/-- The first piece has a character, and it is not the mark at the end. -/
theorem first_proper (c : Char) (cs : List Char) :
    0 < (first c cs).text.length ∧ (first c cs).meaning ≠ .token .eof := by
  simp only [first, comment, string, number]
  split
  · exact ⟨Nat.zero_lt_succ _, by simp⟩
  split
  · exact ⟨Nat.zero_lt_succ _, by simp⟩
  split
  · split <;> exact ⟨Nat.zero_lt_succ _, by simp⟩
  split
  · split <;> exact ⟨Nat.zero_lt_succ _, by simp⟩
  split
  · simp only [word]
    split <;> exact ⟨Nat.zero_lt_succ _, by simp⟩
  split
  · simp only [symbol]
    split <;> exact ⟨Nat.zero_lt_succ _, by simp⟩
  · exact ⟨Nat.zero_lt_succ _, by simp⟩

/-! ### All pieces -/

theorem length_drop_first (c : Char) (cs : List Char) :
    ((c :: cs).drop (first c cs).text.length).length ≤ cs.length := by
  have hpos := (first_proper c cs).1
  rw [List.length_drop, List.length_cons]
  omega

private theorem split_eq_all {fuel : Nat} {cs : List Char} (h : cs.length ≤ fuel) :
    split fuel cs = all cs := by
  have hstep : ∀ (n m : Nat) (cs : List Char), cs.length ≤ n → cs.length ≤ m →
      split n cs = split m cs := by
    intro n
    induction n with
    | zero =>
      intro m cs hn _
      obtain rfl := List.eq_nil_of_length_eq_zero (Nat.le_zero.mp hn)
      cases m <;> rfl
    | succ n ih =>
      intro m cs hn hm
      cases cs with
      | nil => cases m <;> rfl
      | cons c cs =>
        obtain ⟨m, rfl⟩ := Nat.exists_eq_add_of_le' (Nat.le_trans (Nat.le_add_left 1 _) hm)
        have hlen := length_drop_first c cs
        have hn := Nat.le_of_succ_le_succ hn
        have hm := Nat.le_of_succ_le_succ hm
        rw [split, split, ih m _ (hlen.trans hn) (hlen.trans hm)]
  exact hstep fuel cs.length cs h (Nat.le_refl _)

theorem all_cons (c : Char) (cs : List Char) :
    all (c :: cs) = first c cs :: all ((c :: cs).drop (first c cs).text.length) := by
  have hlen := length_drop_first c cs
  rw [← split_eq_all hlen]
  rfl

private theorem not_eof_split (fuel : Nat) (cs : List Char) :
    ∀ p ∈ split fuel cs, p.meaning ≠ .token .eof := by
  induction fuel generalizing cs with
  | zero => cases cs <;> nofun
  | succ fuel ih =>
    cases cs with
    | nil => nofun
    | cons c cs =>
      rw [split, List.forall_mem_cons]
      exact ⟨(first_proper c cs).2, ih _⟩

theorem not_eof_all (cs : List Char) : ∀ p ∈ all cs, p.meaning ≠ .token .eof := not_eof_split _ cs

/-- The pieces before a line feed, unless one is an error, do not depend on what comes after it. -/
theorem all_break {cs : List Char} (h : ∀ p ∈ all cs, ¬ p.IsError) (ds : List Char) :
    all (cs ++ '\n' :: ds) = all cs ++ ⟨.blank, ['\n']⟩ :: all ds := by
  generalize hn : cs.length = n
  induction n using Nat.strong_induction_on generalizing cs with
  | _ n ih =>
    cases cs with
    | nil => exact all_cons '\n' ds
    | cons c cs =>
      have hfirst : first c (cs ++ '\n' :: ds) = first c cs :=
        first_break (h _ (by rw [all_cons]; exact List.mem_cons_self)) ds
      have hlen := length_drop_first c cs
      have hprefix := first_prefix c cs
      -- The first piece ends before the line feed, so what is left is shorter and still has it.
      have hrest := ih ((c :: cs).drop (first c cs).text.length).length
        (by rw [List.length_cons] at hn; omega)
        (fun p hp => h p (by rw [all_cons]; exact List.mem_cons_of_mem _ hp)) rfl
      rw [List.cons_append, all_cons, hfirst, ← List.cons_append,
        List.drop_append_of_le_length hprefix.length_le, hrest, all_cons]
      rfl

end Piece

/-! ### Tokens -/

namespace Lexed

/-- A list of tokens that belongs to a text. -/
theorem text_ofPieces (p : Position) {ps : List Piece} (h : ∀ q ∈ ps, q.meaning ≠ .token .eof) :
    ∃ ts e, (ofPieces p ps).tokens = ts ++ [e] ∧ Token.Text ts e ∧ ∀ qs, ∃ q,
      (ofPieces p (ps ++ qs)).tokens = ts ++ (ofPieces q qs).tokens ∧
      (ofPieces p (ps ++ qs)).errors = (ofPieces p ps).errors ++ (ofPieces q qs).errors := by
  induction ps generalizing p with
  | nil => exact ⟨[], ⟨.eof, .point p⟩, rfl, ⟨nofun, rfl⟩, fun qs => ⟨p, rfl, rfl⟩⟩
  | cons piece ps ih =>
    obtain ⟨ts, e, hts, htext, hmore⟩ :=
      ih (p.afterAll piece.text) fun q hq => h q (List.mem_cons_of_mem _ hq)
    have hpiece := h piece List.mem_cons_self
    simp only [List.cons_append, ofPieces]
    cases hm : piece.meaning with
    | blank => exact ⟨ts, e, hts, htext, hmore⟩
    | error err =>
      refine ⟨ts, e, hts, htext, fun qs => ?_⟩
      obtain ⟨q, ht, he⟩ := hmore qs
      exact ⟨q, ht, congrArg (_ :: ·) he⟩
    | token kind =>
      refine ⟨⟨kind, .upTo p (p.afterAll piece.text)⟩ :: ts, e, congrArg (_ :: ·) hts,
        ⟨?_, htext.last⟩,
        fun qs => ?_⟩
      · intro t ht
        rcases List.mem_cons.mp ht with rfl | ht
        · cases kind with
          | eof => exact absurd hm hpiece
          | _ => rfl
        · exact htext.inner t ht
      · obtain ⟨q, ht, he⟩ := hmore qs
        exact ⟨q, congrArg (_ :: ·) ht, he⟩

/-- The same pieces at another place. -/
theorem moved_ofPieces (p p' : Position) (ps : List Piece) :
    List.Forall₂ (Token.Like .moved) (ofPieces p ps).tokens (ofPieces p' ps).tokens ∧
      List.Forall₂ Likeness.moved.Located (ofPieces p ps).errors (ofPieces p' ps).errors := by
  induction ps generalizing p p' with
  | nil => exact ⟨.cons ⟨rfl, trivial⟩ .nil, .nil⟩
  | cons piece ps ih =>
    obtain ⟨ht, he⟩ := ih (p.afterAll piece.text) (p'.afterAll piece.text)
    simp only [ofPieces]
    cases piece.meaning with
    | blank => exact ⟨ht, he⟩
    | error => exact ⟨ht, .cons ⟨rfl, trivial⟩ he⟩
    | token => exact ⟨.cons ⟨rfl, trivial⟩ ht, he⟩

private theorem not_isError_of_errors_eq {p : Position} {ps : List Piece}
    (h : (ofPieces p ps).errors = []) : ∀ q ∈ ps, ¬ q.IsError := by
  induction ps generalizing p with
  | nil => nofun
  | cons piece ps ih =>
    simp only [ofPieces] at h
    intro q hq
    cases hm : piece.meaning with
    | blank | token =>
      rw [hm] at h
      rcases List.mem_cons.mp hq with rfl | hq
      · rintro ⟨e, he⟩
        rw [hm] at he
        cases he
      · exact ih h q hq
    | error =>
      rw [hm] at h
      cases h

variable {a b : String}

/-- The tokens of two texts with a line feed between them. -/
theorem ofText_break (ha : (ofText a).errors = []) (hb : (ofText b).errors = []) :
    (ofText (a ++ "\n" ++ b)).errors = [] ∧ ∃ ts e us f us' f', (ofText a).tokens = ts ++ [e] ∧
      (ofText b).tokens = us ++ [f] ∧ (ofText (a ++ "\n" ++ b)).tokens = ts ++ us' ++ [f'] ∧
      Token.Text ts e ∧
      Token.Text us f ∧ Token.Text (ts ++ us') f' ∧ List.Forall₂ (Token.Like .moved) us us' := by
  have hpieces : Piece.all (a ++ "\n" ++ b).toList =
      Piece.all a.toList ++ ⟨.blank, ['\n']⟩ :: Piece.all b.toList := by
    have htext : (a ++ "\n" ++ b).toList = a.toList ++ '\n' :: b.toList := by simp
    rw [htext, Piece.all_break (not_isError_of_errors_eq ha)]
  obtain ⟨ts, e, hts, htext, hmore⟩ := text_ofPieces .start (Piece.not_eof_all a.toList)
  obtain ⟨p, htokens, herrors⟩ := hmore (⟨.blank, ['\n']⟩ :: Piece.all b.toList)
  obtain ⟨us, f, hus, hutext, -⟩ := text_ofPieces .start (Piece.not_eof_all b.toList)
  obtain ⟨us', f', hus', hutext', -⟩ :=
    text_ofPieces (p.after '\n') (Piece.not_eof_all b.toList)
  obtain ⟨hmoved, hnone⟩ := moved_ofPieces .start (p.after '\n') (Piece.all b.toList)
  rw [hus, hus'] at hmoved
  refine ⟨?_, ts, e, us, f, us', f', hts, hus, ?_, htext, hutext,
    ⟨fun t ht => ?_, hutext'.last⟩, ?_⟩
  · change (ofPieces .start (Piece.all b.toList)).errors = [] at hb
    rw [hb] at hnone
    rw [ofText, hpieces, herrors]
    exact List.append_eq_nil_iff.mpr ⟨ha, List.forall₂_nil_left_iff.mp hnone⟩
  · rw [ofText, hpieces, htokens, List.append_assoc]
    exact congrArg (ts ++ ·) hus'
  · exact (List.mem_append.mp ht).elim (htext.inner t) (hutext'.inner t)
  · have hlen : us'.length = us.length := by simpa using hmoved.length_eq.symm
    have htake := List.forall₂_take us.length hmoved
    rwa [List.take_left, List.take_left' hlen] at htake

end Lexed

/-- The programs of two texts with a line feed between them, if there are no errors in either. -/
theorem Parsed.ofText_break {a b : String} (ha : (Lexed.ofText a).errors = [])
    (hb : (Lexed.ofText b).errors = []) {i : Nat} {p q : Parsed}
    (hp : ofTokens (Lexed.ofText a).tokens i = p)
    (hq : ofTokens (Lexed.ofText b).tokens p.nextId = q) (hpe : p.errors = [])
    (hqe : q.errors = []) :
    let joint := ofTokens (Lexed.ofText (a ++ "\n" ++ b)).tokens i
    joint.errors = [] ∧ joint.nextId = q.nextId ∧ ∃ ss, joint.program.body = p.program.body ++ ss ∧
      List.Forall₂ (Stmt.Like .moved) q.program.body ss := by
  obtain ⟨-, ts, e, us, f, us', f', hts, hus, hjoint, ht, hu, hj, hmoved⟩ :=
    Lexed.ofText_break ha hb
  subst hp hq
  rw [hts] at hpe hqe ⊢
  rw [hus] at hqe ⊢
  rw [hjoint]
  obtain ⟨ss, hbody, hlike, herrors, hnext⟩ := ofTokens_append ht hu hj hmoved hpe hqe
  exact ⟨herrors, hnext, ss, hbody, hlike⟩

end Lox
