import Lox.Session.Interactive
import Lox.Proofs.Grammar.Acceptance
import Lox.Proofs.Grammar.Balance
import Lox.Proofs.Token.Accounting
/-!
# Entries that go on

The scan for open brackets and strings finds just what is open in the pieces of the text. In what
the parser accepts all brackets are closed, so an entry that goes on over a further line is one that
could not be run as it stands.
-/

namespace Lox

/-! ### The pieces of an entry -/

/-- By how much a piece changes the number of open brackets. -/
def Piece.weight (p : Piece) : Int :=
  match p.meaning with
  | .token k => k.weight
  | _ => 0

/-- The number of brackets that are open after the pieces. -/
def Piece.depth : List Piece → Int
  | [] => 0
  | p :: ps => p.weight + depth ps

namespace Entry

variable {c : Char} {w cs : List Char} {k : TokenKind} {d : Int}

theorem scan_code (h : ¬ ['/', '/'] <+: c :: cs) :
    scan .code d (c :: cs) = if c = '"' then
      scan .string d cs else scan .code (d + weight c) cs := by
  rw [scan]
  rintro ds rfl rfl
  exact h ⟨ds, rfl⟩

/-- Characters of code that do not count. -/
def Idle (c : Char) : Prop := c ≠ '"' ∧ c ≠ '/' ∧ weight c = 0

instance : DecidablePred Idle :=
  fun c => inferInstanceAs (Decidable (c ≠ '"' ∧ c ≠ '/' ∧ weight c = 0))

theorem scan_idle (hw : ∀ c ∈ w, Idle c) : scan .code d (w ++ cs) = scan .code d cs := by
  induction w with
  | nil => rfl
  | cons c w ih =>
    obtain ⟨⟨hquote, hslash, hzero⟩, hw⟩ := List.forall_mem_cons.mp hw
    rw [List.cons_append, scan_code fun h => hslash (List.cons_prefix_cons.mp h).1.symm,
      if_neg hquote, hzero, Int.add_zero, ih hw]

private theorem scan_comment (hw : '\n' ∉ w) (hcs : ∀ c ∈ cs.head?, c = '\n') :
    scan .comment d (w ++ cs) = scan .code d cs := by
  induction w with
  | nil =>
    cases cs with
    | nil => rfl
    | cons c cs =>
      -- The line feed ends the comment, and as code it does not count.
      obtain rfl := hcs c rfl
      have hfeed : Idle '\n' := by decide
      exact (scan_idle (List.forall_mem_singleton.mpr hfeed)).symm
  | cons c w ih =>
    rw [List.mem_cons, not_or] at hw
    rw [List.cons_append, scan, if_neg (Ne.symm hw.1), ih hw.2]

theorem scan_string (hw : '"' ∉ w) : scan .string d (w ++ cs) = scan .string d cs := by
  induction w with
  | nil => rfl
  | cons c w ih =>
    rw [List.mem_cons, not_or] at hw
    rw [List.cons_append, scan, if_neg (Ne.symm hw.1), ih hw.2]

theorem idle_of_ofChar? (hquote : c ≠ '"') (h : Symbol.ofChar? c = none) : Idle c := by
  refine ⟨hquote, ?_, ?_⟩
  · rintro rfl
    cases h
  · rw [weight, if_neg, if_neg]
    all_goals
      rintro (rfl | rfl)
      all_goals cases h

private theorem idle_of_isBlank (h : Piece.isBlank c = true) : Idle c := by
  obtain rfl | rfl | rfl | rfl := Piece.isBlank_iff.mp h
  all_goals decide

theorem idle_of_isLetterOrDigit (h : Piece.isLetterOrDigit c = true) : Idle c := by
  refine idle_of_ofChar? (Piece.plain_of_isLetterOrDigit h).2.1 ?_
  cases hs : Symbol.ofChar? c with
  | none => rfl
  | some s =>
    obtain ⟨-, -, hdigit, hletter⟩ := Piece.plain_of_ofChar? hs
    rcases Piece.isLetterOrDigit_iff.mp h with h | h
    · rw [hletter] at h
      cases h
    · rw [hdigit] at h
      cases h

private theorem scan_symbol (s : Symbol) (h : ¬ ['/', '/'] <+: s.text.toList ++ cs) :
    scan .code d (s.text.toList ++ cs) = scan .code (d + (TokenKind.symbol s).weight) cs := by
  cases s
  case slash =>
    rw [show Symbol.slash.text.toList = ['/'] from rfl, List.singleton_append] at h ⊢
    rw [scan_code h, if_neg (by decide)]
    rfl
  case bangEq | eqEq | lessEq | greaterEq =>
    have htwo : ∀ {c : Char}, Idle c → scan .code d (c :: '=' :: cs) = scan .code (d + 0) cs := by
      intro c hc
      have hboth : ∀ e ∈ [c, '='], Idle e :=
        List.forall_mem_cons.mpr ⟨hc, List.forall_mem_singleton.mpr (by decide)⟩
      rw [Int.add_zero]
      exact scan_idle hboth
    exact htwo (by decide)
  all_goals rfl

/-- A token counts by its brackets, whatever stands in it. -/
theorem scan_lexeme (hw : Lexeme w k) (h : ¬ ['/', '/'] <+: w ++ cs) :
    scan .code d (w ++ cs) = scan .code (d + k.weight) cs := by
  have hdigit : ∀ {ds : List Char}, (∀ c ∈ ds, c.isDigit = true) → ∀ c ∈ ds, Idle c :=
    fun hds c hc => idle_of_isLetterOrDigit (Piece.isLetterOrDigit_iff.mpr (.inr (hds c hc)))
  have hidle : ∀ {w : List Char} {k : TokenKind}, k.weight = 0 → (∀ c ∈ w, Idle c) →
      scan .code d (w ++ cs) = scan .code (d + k.weight) cs := by
    intro w k hk hw
    rw [scan_idle hw, hk, Int.add_zero]
  cases hw with
  | symbol s => exact scan_symbol s h
  | keyword w =>
    obtain ⟨c, ds, hw, hc, hds⟩ := Lexeme.keyword_letters w
    rw [hw]
    refine hidle rfl (List.forall_mem_cons.mpr ⟨?_, fun d hd => idle_of_isLetterOrDigit (hds d hd)⟩)
    exact idle_of_isLetterOrDigit (Piece.isLetterOrDigit_iff.mpr (.inl hc))
  | @identifier c ds hc hds =>
    refine hidle rfl (List.forall_mem_cons.mpr ⟨?_, fun d hd => idle_of_isLetterOrDigit (hds d hd)⟩)
    exact idle_of_isLetterOrDigit (Piece.isLetterOrDigit_iff.mpr (.inl hc))
  | @string body hbody =>
    have hopen : ¬ ['/', '/'] <+: '"' :: (body ++ ['"'] ++ cs) := fun h => by
      cases (List.cons_prefix_cons.mp h).1
    rw [List.cons_append, scan_code hopen, if_pos rfl, List.append_assoc, scan_string hbody]
    exact congrArg (scan .code · cs) (Int.add_zero d).symm
  | whole _ hds => exact hidle rfl (hdigit hds)
  | @fraction ds fs _ hds _ hfs =>
    refine hidle rfl fun c hc => ?_
    rcases List.mem_append.mp hc with hc | hc
    · exact hdigit hds c hc
    · rcases List.mem_cons.mp hc with rfl | hc
      · decide
      · exact hdigit hfs c hc

/-- What is found open at the end of a text. -/
theorem scan_of_accounts {ps : List Piece} (h : Piece.Accounts cs ps) (d : Int) :
    scan .code d cs = (ps.any Piece.isUnterminated, d + Piece.depth ps) := by
  induction h generalizing d with
  | nil => exact congrArg _ (Int.add_zero d).symm
  | @blank c cs ps hc _ ih =>
    have hidle : ∀ e ∈ [c], Idle e := List.forall_mem_singleton.mpr (idle_of_isBlank hc)
    rw [← List.singleton_append, scan_idle hidle, ih, Piece.depth, Piece.weight, Int.zero_add]
    rfl
  | @comment body cs ps hbody hcs _ ih =>
    have hopen : scan .code d ('/' :: '/' :: body ++ cs) = scan .comment d (body ++ cs) := by
      rw [List.cons_append, List.cons_append, scan]
    rw [hopen, scan_comment hbody hcs, ih, Piece.depth, Piece.weight, Int.zero_add]
    rfl
  | token hw hc _ ih =>
    rw [scan_lexeme hw.lexeme hc, ih, Piece.depth, Int.add_assoc]
    rfl
  | @unexpected c cs ps _ hquote hnone _ ih =>
    -- Every symbol is a lexeme, so the character does not begin one.
    have hsymbol : Symbol.ofChar? c = none := by
      cases hs : Symbol.ofChar? c with
      | none => rfl
      | some s =>
        refine absurd ?_ (hnone _ _ (.symbol s))
        rw [Symbol.text_of_ofChar? hs]
        exact ⟨cs, rfl⟩
    have hidle : ∀ e ∈ [c], Idle e := List.forall_mem_singleton.mpr (idle_of_ofChar? hquote hsymbol)
    rw [← List.singleton_append, scan_idle hidle, ih, Piece.depth, Piece.weight, Int.zero_add]
    rfl
  | @unterminated body hbody =>
    have hopen : ¬ ['/', '/'] <+: '"' :: body := fun h => by cases (List.cons_prefix_cons.mp h).1
    have hscan : scan .string d (body ++ []) = scan .string d [] := scan_string hbody
    rw [List.append_nil] at hscan
    rw [scan_code hopen, if_pos rfl, hscan]
    exact congrArg (true, ·) (Int.add_zero d).symm

/-- The number of open brackets stays within the length of the text, so that 32 bits are enough for
it in a text of fewer than 2 ^ 31 characters. -/
theorem scan_bounds (m : Mode) (d : Int) (cs : List Char) :
    d - cs.length ≤ (scan m d cs).2 ∧ (scan m d cs).2 ≤ d + cs.length := by
  have hweight : ∀ c, -1 ≤ weight c ∧ weight c ≤ 1 := by
    intro c
    unfold weight
    split
    · decide
    · split <;> decide
  fun_induction scan m d cs with
  | case1 => simp
  | case2 d c cs ih | case3 d c cs ih | case4 d cs ih | case5 d cs _ ih =>
    simp only [List.length_cons, Int.natCast_add] at ih ⊢
    omega
  | case6 d c cs _ _ ih =>
    have hc := hweight c
    simp only [List.length_cons, Int.natCast_add] at ih ⊢
    omega

end Entry

/-! ### Tokens and entries -/

private theorem TokenKind.eq_eof {k : TokenKind} (h : k.isEof = true) : k = .eof := by
  cases k with
  | eof => rfl
  | number | string | identifier | keyword | symbol => cases h

/-- The tokens of a text open the brackets that its pieces open. -/
theorem Lexed.depth_tokens (p : Position) (ps : List Piece) :
    TokenKind.depth ((ofPieces p ps).tokens.map Token.kind) = Piece.depth ps := by
  induction ps generalizing p with
  | nil => rfl
  | cons q ps ih =>
    rw [ofPieces, Piece.depth, ← ih (p.afterAll q.text), Piece.weight]
    cases q.meaning with
    | blank | error => exact (Int.zero_add _).symm
    | token k => rfl

/-- A string is open at the end if this is one of the errors of the text. -/
theorem Piece.any_isUnterminated_iff (ps : List Piece) :
    ps.any isUnterminated = true ↔ .unterminatedString ∈ ps.filterMap error? := by
  simp [List.mem_filterMap, isUnterminated]

namespace Entry

/-- What is found in an entry is what is open in its tokens. -/
theorem scan_ofText (s : String) :
    ((scan .code 0 s.toList).1 = true ↔
      .unterminatedString ∈ (Lexed.ofText s).errors.map Located.item) ∧
      (scan .code 0 s.toList).2 = TokenKind.depth ((Lexed.ofText s).tokens.map Token.kind) := by
  rw [scan_of_accounts (Piece.accounts_all s.toList), Lexed.ofText, Lexed.map_item_errors,
    Lexed.depth_tokens, Int.zero_add]
  exact ⟨Piece.any_isUnterminated_iff _, rfl⟩

/-- All brackets are closed in a text that is read without errors. -/
theorem isComplete_of_errors_eq_nil {s : String} {firstId : Nat} (hl : (Lexed.ofText s).errors = [])
    (hp : (Parsed.ofTokens (Lexed.ofText s).tokens firstId).errors = []) : isComplete s = true := by
  obtain ⟨hstring, hdepth⟩ := scan_ofText s
  obtain ⟨ts, e, hts, htext, -⟩ := Lexed.text_ofPieces .start (Piece.not_eof_all s.toList)
  change (Lexed.ofText s).tokens = ts ++ [e] at hts
  have hclosed : (scan .code 0 s.toList).1 = false := by
    rw [Bool.eq_false_iff, ne_eq, hstring, hl]
    exact List.not_mem_nil
  have hzero : (scan .code 0 s.toList).2 = 0 := by
    rw [hts] at hp hdepth
    have hbalance := (Parsed.declaredAll_of_errors_eq_nil htext hp).derives.depth_eq_zero
    have hend : e.kind = .eof := TokenKind.eq_eof htext.last
    rw [hdepth, List.map_append, TokenKind.depth_append, hbalance, Int.zero_add, List.map_singleton,
      hend]
    rfl
  simp [isComplete, hclosed, hzero]

end Entry

namespace Interactive

/-- The session waits for a further line after an entry that is not complete, and then only. -/
theorem feed_waits {i j : Interactive} {fuel : Nat} {line entry : String} {r : Reply}
    (hfeed : i.feed fuel line = some (r, j)) (hpending : j.pending = some entry) :
    entry = i.pending.elim line (· ++ "\n" ++ line) ∧ Entry.isComplete entry = false := by
  -- Nothing is pending in a session in which an entry has run, so the line was taken
  -- and nothing else.
  have htake : (i.take line).1.pending = some entry := by
    unfold feed at hfeed
    split at hfeed
    · rename_i heq
      cases hfeed
      rwa [heq]
    · rename_i heq
      obtain ⟨p, -, hp⟩ := Option.map_eq_some_iff.mp hfeed
      cases hp
      rwa [heq]
  unfold take at htake
  extract_lets text at htake
  have htext : text = i.pending.elim line (· ++ "\n" ++ line) := by
    subst text
    cases i.pending <;> rfl
  clear_value text
  subst htext
  split at htake
  · rename_i hopen
    obtain rfl := Option.some.inj htake
    exact ⟨rfl, by simpa using hopen⟩
  · cases htake

/-- The session never holds back a text that is read without errors, so it waits for a further line
only after an entry that has an error as it stands. -/
theorem waits_only_on_errors (firstId : Nat) :
    (∀ s, (Lexed.ofText s).errors = [] →
      (Parsed.ofTokens (Lexed.ofText s).tokens firstId).errors = [] →
      Entry.isComplete s = true) ∧
    ∀ (i j : Interactive) (fuel : Nat) (line : String) (r : Reply) (entry : String),
      i.feed fuel line = some (r, j) → j.pending = some entry →
        entry = i.pending.elim line (· ++ "\n" ++ line) ∧
          ((Lexed.ofText entry).errors ≠ [] ∨
            (Parsed.ofTokens (Lexed.ofText entry).tokens firstId).errors ≠ []) := by
  refine ⟨fun s hl hp => Entry.isComplete_of_errors_eq_nil hl hp,
    fun i j fuel line r entry hfeed hpending => ?_⟩
  obtain ⟨hentry, hopen⟩ := feed_waits hfeed hpending
  refine ⟨hentry, ?_⟩
  rw [← not_and_or]
  rintro ⟨hl, hp⟩
  rw [Entry.isComplete_of_errors_eq_nil hl hp] at hopen
  cases hopen

/-- A bracket in a string and another in a comment are not waited for, but an open block is. -/
theorem waits_only_on_errors_block :
    ((Lexed.ofText "print \"(\"; // \x7b").errors = [] ∧
      (Parsed.ofTokens (Lexed.ofText "print \"(\"; // \x7b").tokens 0).errors = [] ∧
      Entry.isComplete "print \"(\"; // \x7b" = true) ∧
    ∃ r j, (Interactive.initial (fun _ => 0) false).feed 1 "while (a) \x7b" = some (r, j) ∧
      j.pending = some "while (a) \x7b" ∧
      ((Lexed.ofText "while (a) \x7b").errors ≠ [] ∨
        (Parsed.ofTokens (Lexed.ofText "while (a) \x7b").tokens 0).errors ≠ []) := by
  have hl : (Lexed.ofText "print \"(\"; // \x7b").errors = [] := by decide +kernel
  have hp : (Parsed.ofTokens (Lexed.ofText "print \"(\"; // \x7b").tokens 0).errors = [] := by
    decide +kernel
  have hfeed : (Interactive.initial (fun _ => 0) false).feed 1 "while (a) \x7b" =
      some (⟨.empty, ""⟩, ⟨.initial fun _ => 0, some "while (a) \x7b", false⟩) := by rfl
  obtain ⟨hheld, hwaits⟩ := waits_only_on_errors 0
  exact ⟨⟨hl, hp, hheld _ hl hp⟩, _, _, hfeed, rfl, (hwaits _ _ _ _ _ _ hfeed rfl).2⟩

end Interactive

end Lox
