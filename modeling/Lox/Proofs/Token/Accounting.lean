import Lox.Proofs.Session.Static
import Lox.Proofs.Token.Bytes
/-!
# Every byte is accounted for

What the byte scanner returns for a text: tokens that are cut out of it between characters, one
after the other, each as long as it can be, with the mark at the end after them; and an error for
each character that nothing begins with, and for the one string that may be left open at the end.
-/

namespace Lox

namespace Piece

def error? (p : Piece) : Option LexicalError :=
  match p.meaning with
  | .error e => some e
  | _ => none

/-- A character that no token, blank or comment begins with. -/
def isUnexpected (p : Piece) : Bool :=
  match p.error? with
  | some (.unexpectedCharacter _) => true
  | _ => false

/-- A string that is not closed. -/
def isUnterminated (p : Piece) : Bool := p.error? = some .unterminatedString

end Piece

/-- The token is cut out of the text between two characters, and no longer lexeme
starts where it does. -/
structure Scanned.Cut (text : String) (t : Scanned) : Prop where
  nonempty : t.first < t.stop
  first_valid : String.Pos.Raw.IsValid text ⟨t.first⟩
  stop_valid : String.Pos.Raw.IsValid text ⟨t.stop⟩
  longest : ∃ before w after, text.toList = before ++ w ++ after ∧ t.first = (bytes before).length ∧
    t.stop = (bytes (before ++ w)).length ∧ Lexeme.Longest w t.kind (w ++ after)

variable {text : String} {before cs : List Char} {m : Mark} {ps : List Piece}

theorem Lexeme.not_eof {w : List Char} {k : TokenKind} (h : Lexeme w k) : k ≠ .eof := by
  cases h <;> nofun

/-- The tokens from a mark on. -/
structure Scanned.Tokens (text : String) (first : Nat) (ts : List Scanned) : Prop where
  cut : ∀ t ∈ ts, t.kind ≠ .eof ∧ t.Cut text
  onward : ∀ t ∈ ts, first ≤ t.first
  ordered : ts.Pairwise fun t u => t.stop ≤ u.first

theorem Scanned.Tokens.mono {first first' : Nat} {ts : List Scanned} (h : Tokens text first ts)
    (hle : first' ≤ first) : Tokens text first' ts :=
  ⟨h.cut, fun t ht => Nat.le_trans hle (h.onward t ht), h.ordered⟩

theorem Piece.Accounts.tokens (h : Piece.Accounts cs ps) (hm : m.At text before cs) :
    ∃ ts e, Scanned.ofPieces m ps = ts ++ [e] ∧ e.kind = .eof ∧
    Scanned.Tokens text m.offset ts := by
  induction h generalizing m before with
  | nil => exact ⟨[], _, rfl, rfl, nofun, nofun, .nil⟩
  | blank _ _ ih =>
    obtain ⟨ts, e, hts, he, htokens⟩ := ih hm.across_char
    exact ⟨ts, e, hts, he, htokens.mono (Nat.le_add_right _ _)⟩
  | comment _ _ _ ih =>
    obtain ⟨ts, e, hts, he, htokens⟩ := ih hm.across
    exact ⟨ts, e, hts, he, htokens.mono (Nat.le_add_right _ _)⟩
  | unexpected _ _ _ _ ih =>
    obtain ⟨ts, e, hts, he, htokens⟩ := ih hm.across_char
    exact ⟨ts, e, hts, he, htokens.mono (Nat.le_add_right _ _)⟩
  | unterminated => exact ⟨[], _, rfl, rfl, nofun, nofun, .nil⟩
  | @token w k cs ps hw _ _ ih =>
    obtain ⟨ts, e, hts, he, htokens⟩ := ih hm.across
    have hpos := length_bytes_pos hw.lexeme.ne_nil
    have hcut : Scanned.Cut text ⟨⟨k, .upTo m.position (m.across w).position⟩, m.offset,
        (m.across w).offset⟩ :=
      ⟨Nat.lt_add_of_pos_right hpos, hm.isValid, hm.across.isValid,
        before, w, cs, by rw [hm.text_eq, List.append_assoc], hm.offset_eq, hm.across.offset_eq, hw⟩
    refine ⟨_ :: ts, e, ?_, he, List.forall_mem_cons.mpr ⟨⟨hw.lexeme.not_eof, hcut⟩, htokens.cut⟩,
      List.forall_mem_cons.mpr ⟨Nat.le_refl _, (htokens.mono (Nat.le_add_right _ _)).onward⟩,
      List.pairwise_cons.mpr ⟨htokens.onward, htokens.ordered⟩⟩
    simp only [Scanned.ofPieces, hts, List.cons_append]

theorem Lexed.map_item_errors (p : Position) (ps : List Piece) :
    (ofPieces p ps).errors.map Located.item = ps.filterMap Piece.error? := by
  induction ps generalizing p with
  | nil => rfl
  | cons q ps ih =>
    have hps := ih (p.afterAll q.text)
    rw [ofPieces, List.filterMap_cons, Piece.error?]
    cases q.meaning with
    | blank | token => exact hps
    | error e => exact congrArg _ hps

/-- An open string is at the end, so there is one or none. -/
theorem Piece.Accounts.length_errors (h : Piece.Accounts cs ps) :
    (ps.filterMap Piece.error?).length =
      ps.countP Piece.isUnexpected + if ps.any Piece.isUnterminated then 1 else 0 := by
  induction h with
  | nil => rfl
  | blank _ _ ih | comment _ _ _ ih | token _ _ _ ih =>
    rw [List.filterMap_cons_none rfl, List.countP_cons_of_neg Bool.false_ne_true, List.any_cons]
    exact ih
  | @unexpected c _ _ _ _ _ _ ih =>
    have herror : error? ⟨.error (.unexpectedCharacter c), [c]⟩ =
        some (.unexpectedCharacter c) := rfl
    rw [List.filterMap_cons_some herror, List.countP_cons_of_pos rfl, List.any_cons,
      List.length_cons, ih, Nat.add_right_comm]
    rfl
  | unterminated => rfl

/-- Whatever a number without a value would be taken for, the byte scanner returns the same tokens
and errors, which account for every byte of the text. -/
theorem Scanner.lex_accounts (f : SourceFile) :
    ∃ (ts : List Scanned) (e : Scanned) (errors : Diagnostics) (ps : List Piece),
      (∀ fallback, lex f fallback = some (ts ++ [e], errors)) ∧
      ((ts ++ [e]).map Scanned.toToken = (Lexed.ofText f.text).tokens ∧
        errors = .ofErrors f (Lexed.ofText f.text).errors) ∧
      (e.kind = .eof ∧ ∀ t ∈ ts, t.kind ≠ .eof) ∧
      ((∀ t ∈ ts, t.Cut f.text) ∧ ts.Pairwise fun t u => t.stop ≤ u.first) ∧
      (Piece.Accounts f.text.toList ps ∧ ts ++ [e] = Scanned.ofPieces .start ps ∧
        (Lexed.ofText f.text).errors.map Located.item = ps.filterMap Piece.error?) ∧
      errors.total =
        ps.countP Piece.isUnexpected + if ps.any Piece.isUnterminated then 1 else 0 := by
  have haccounts := Piece.accounts_all f.text.toList
  obtain ⟨ts, e, hts, he, htokens⟩ := haccounts.tokens (.start f.text)
  have hitems := Lexed.map_item_errors .start (Piece.all f.text.toList)
  refine ⟨ts, e, _, _, fun fallback => hts ▸ lex_eq f fallback,
    ⟨hts ▸ Scanned.map_toToken_ofPieces _ _, rfl⟩,
    ⟨he, fun t ht => (htokens.cut t ht).1⟩, ⟨fun t ht => (htokens.cut t ht).2, htokens.ordered⟩,
    ⟨haccounts, hts.symm, hitems⟩, ?_⟩
  rw [← haccounts.length_errors, ← hitems, List.length_map, Diagnostics.ofErrors,
    Diagnostics.ofList, Diagnostics.total_foldl_push, List.length_map]
  exact Nat.zero_add _

end Lox
