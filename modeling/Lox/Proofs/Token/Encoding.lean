import Mathlib.Data.String.Basic
import Lox.Token.Bytes
import Lox.Proofs.Token.Lexemes
/-!
# Characters as bytes

A character below 128 is a single byte, itself. The bytes of any other character are all at least
128, and of the bytes of a character all but the first go on with it. So a test for single bytes
sees in the bytes of a text what it would see in its characters, and going over the bytes of a
character moves a mark as the character does.
-/

namespace Lox

theorem isContinuation_iff {b : UInt8} :
    isContinuation b = true ↔ 128 ≤ b.toNat ∧ b.toNat < 192 := by
  obtain ⟨b⟩ := b
  revert b
  decide

/-- `b` and then `bs` are the bytes of `c`. -/
structure Encoding (c : Char) (b : UInt8) (bs : List UInt8) : Prop where
  eq : String.utf8EncodeChar c = b :: bs
  first : isContinuation b = false
  others : ∀ d ∈ bs, isContinuation d = true
  ascii : c.toNat < 128 → bs = [] ∧ b.toNat = c.toNat
  wide : 128 ≤ c.toNat → 128 ≤ b.toNat

theorem exists_encoding (c : Char) : ∃ b bs, Encoding c b bs := by
  cases hbytes : String.utf8EncodeChar c with
  | nil => exact absurd hbytes String.utf8EncodeChar_ne_nil
  | cons b bs =>
    have hfacts : ¬ (128 ≤ b.toNat ∧ b.toNat < 192) ∧ (∀ d ∈ bs, 128 ≤ d.toNat ∧ d.toNat < 192) ∧
        (c.toNat < 128 → bs = [] ∧ b.toNat = c.toNat) ∧ (128 ≤ c.toNat → 128 ≤ b.toNat) := by
      have hval : c.toNat = c.val.toNat := rfl
      simp only [String.utf8EncodeChar] at hbytes
      rw [hval]
      split at hbytes
      · obtain ⟨rfl, rfl⟩ := List.cons_eq_cons.mp hbytes
        simp only [UInt8.toNat_ofNat', List.not_mem_nil, false_implies, implies_true, true_and]
        omega
      split at hbytes
      · obtain ⟨rfl, rfl⟩ := List.cons_eq_cons.mp hbytes
        simp only [UInt8.toNat_ofNat', List.mem_singleton, forall_eq]
        omega
      split at hbytes
      · obtain ⟨rfl, rfl⟩ := List.cons_eq_cons.mp hbytes
        simp only [UInt8.toNat_ofNat', List.mem_cons, List.not_mem_nil, or_false, forall_eq_or_imp,
          forall_eq]
        omega
      · obtain ⟨rfl, rfl⟩ := List.cons_eq_cons.mp hbytes
        simp only [UInt8.toNat_ofNat', List.mem_cons, List.not_mem_nil, or_false, forall_eq_or_imp,
          forall_eq]
        omega
    refine ⟨b, bs, hbytes, ?_, fun d hd => isContinuation_iff.mpr (hfacts.2.1 d hd),
      hfacts.2.2.1, hfacts.2.2.2⟩
    rw [← Bool.not_eq_true, isContinuation_iff]
    exact hfacts.1

/-- The bytes of a text. -/
def bytes (cs : List Char) : List UInt8 := cs.flatMap String.utf8EncodeChar

@[simp] theorem bytes_nil : bytes [] = [] := rfl

@[simp] theorem bytes_cons (c : Char) (cs : List Char) :
    bytes (c :: cs) = String.utf8EncodeChar c ++ bytes cs :=
  List.flatMap_cons

@[simp] theorem bytes_append (cs ds : List Char) : bytes (cs ++ ds) = bytes cs ++ bytes ds :=
  List.flatMap_append

theorem length_bytes (cs : List Char) : (bytes cs).length = String.utf8Len cs := by
  induction cs with
  | nil => rfl
  | cons c cs ih =>
    rw [bytes_cons, List.length_append, String.length_utf8EncodeChar, ih, String.utf8Len_cons,
      Nat.add_comm]

theorem length_bytes_pos {cs : List Char} (h : cs ≠ []) : 0 < (bytes cs).length := by
  rw [length_bytes, Nat.pos_iff_ne_zero, ne_eq, String.utf8Len_eq_zero]
  exact h

/-! ### Tests -/

/-- A test for characters that are single bytes: it says the same of all others. -/
def SingleByte (P : Char → Bool) : Prop := ∀ c d : Char, 128 ≤ c.toNat → 128 ≤ d.toNat → P c = P d

theorem singleByte_eq {a : Char} (ha : a.toNat < 128) : SingleByte (· = a) := fun c d hc hd => by
  have hne : ∀ x : Char, 128 ≤ x.toNat → ¬ x = a := fun x hx h => by
    rw [h] at hx
    omega
  simp [hne c hc, hne d hd]

theorem SingleByte.not {P : Char → Bool} (h : SingleByte P) :
    SingleByte fun c => !P c := fun c d hc hd =>
  congrArg _ (h c d hc hd)

theorem singleByte_ne {a : Char} (ha : a.toNat < 128) : SingleByte (· ≠ a) := by
  simpa only [ne_eq, decide_not] using (singleByte_eq ha).not

theorem singleByte_isBlank : SingleByte Piece.isBlank := fun c d hc hd => by
  have hne : ∀ x : Char, 128 ≤ x.toNat → ¬ Piece.isBlank x = true := fun x hx h => by
    obtain rfl | rfl | rfl | rfl := Piece.isBlank_iff.mp h <;> revert hx <;> decide
  rw [Bool.eq_iff_iff]
  exact iff_of_false (hne c hc) (hne d hd)

theorem singleByte_isDigit : SingleByte Char.isDigit := fun c d hc hd => by
  rw [Bool.eq_iff_iff, Piece.isDigit_iff, Piece.isDigit_iff]
  omega

theorem singleByte_isLetter : SingleByte Piece.isLetter := fun c d hc hd => by
  rw [Bool.eq_iff_iff, Piece.isLetter_iff, Piece.isLetter_iff]
  omega

theorem singleByte_isLetterOrDigit : SingleByte Piece.isLetterOrDigit := fun c d hc hd => by
  rw [Bool.eq_iff_iff, Piece.isLetterOrDigit_iff, Piece.isLetterOrDigit_iff,
    singleByte_isLetter c d hc hd, singleByte_isDigit c d hc hd]

namespace Encoding

variable {c : Char} {b : UInt8} {bs : List UInt8} {P : Char → Bool}

theorem bytes_eq (h : Encoding c b bs) (cs : List Char) :
    bytes (c :: cs) = b :: (bs ++ bytes cs) := by
  rw [bytes_cons, h.eq, List.cons_append]

theorem toNat_ofUInt8 (b : UInt8) : (Char.ofUInt8 b).toNat = b.toNat := rfl

theorem ofUInt8_eq (h : Encoding c b bs) (hc : c.toNat < 128) : Char.ofUInt8 b = c :=
  Char.toNat_inj.mp ((toNat_ofUInt8 b).trans (h.ascii hc).2)

/-- A test sees the character in each of its bytes. -/
theorem test (h : Encoding c b bs) (hP : SingleByte P) :
    ∀ d ∈ b :: bs, P (Char.ofUInt8 d) = P c := by
  rcases Nat.lt_or_ge c.toNat 128 with hc | hc
  · rw [(h.ascii hc).1, List.forall_mem_singleton, h.ofUInt8_eq hc]
  · intro d hd
    refine hP _ _ ?_ hc
    rw [toNat_ofUInt8]
    rcases List.mem_cons.mp hd with rfl | hd
    · exact h.wide hc
    · exact (isContinuation_iff.mp (h.others d hd)).1

end Encoding

theorem takeWhile_bytes {P : Char → Bool} (hP : SingleByte P) (cs : List Char) :
    (bytes cs).takeWhile (fun b => P (Char.ofUInt8 b)) = bytes (cs.takeWhile P) := by
  induction cs with
  | nil => rfl
  | cons c cs ih =>
    obtain ⟨b, bs, h⟩ := exists_encoding c
    have htest := h.test hP
    rw [List.takeWhile_cons]
    cases hc : P c with
    | true =>
      rw [hc] at htest
      rw [if_pos rfl, h.bytes_eq, h.bytes_eq, ← List.cons_append,
        List.takeWhile_append_of_pos htest, ih, List.cons_append]
    | false =>
      rw [if_neg Bool.false_ne_true, h.bytes_eq, List.takeWhile_cons, htest b List.mem_cons_self,
        hc]
      rfl

/-! ### Marks -/

namespace Mark

/-- The mark after the text `w`. -/
def across (m : Mark) (w : List Char) : Mark := ⟨m.offset + (bytes w).length, m.position.afterAll w⟩

theorem across_append (m : Mark) (v w : List Char) : m.across (v ++ w) = (m.across v).across w := by
  simp [across, Position.afterAll_append, Nat.add_assoc]

private theorem foldl_past_continuation (m : Mark) {bs : List UInt8}
    (h : ∀ b ∈ bs, isContinuation b = true) :
    bs.foldl past m = ⟨m.offset + bs.length, m.position⟩ := by
  induction bs generalizing m with
  | nil => rfl
  | cons b bs ih =>
    obtain ⟨hb, hbs⟩ := List.forall_mem_cons.mp h
    have hne : b ≠ 10 := by
      rintro rfl
      cases hb
    rw [List.foldl_cons, ih _ hbs, past, if_neg hne, if_pos hb, List.length_cons]
    simp only [Nat.add_assoc, Nat.add_comm 1]

theorem foldl_past_encoding (m : Mark) {c : Char} {b : UInt8} {bs : List UInt8}
    (h : Encoding c b bs) : (b :: bs).foldl past m = m.across [c] := by
  have hbreak : b = 10 ↔ c = '\n' := by
    rw [← UInt8.toNat_inj, ← Char.toNat_inj]
    change b.toNat = 10 ↔ c.toNat = 10
    rcases Nat.lt_or_ge c.toNat 128 with hc | hc
    · rw [(h.ascii hc).2]
    · have hb := h.wide hc
      omega
  have hposition : (m.past b).position = m.position.after c := by
    simp only [past, Position.after, hbreak, h.first, Bool.false_eq_true, if_false]
  rw [List.foldl_cons, foldl_past_continuation _ h.others, hposition, across, h.bytes_eq, bytes_nil,
    List.append_nil, List.length_cons, Position.afterAll_cons, Position.afterAll_nil]
  simp only [past, Nat.add_assoc, Nat.add_comm 1]

/-- Byte by byte over a text. -/
theorem foldl_past (m : Mark) (w : List Char) : (bytes w).foldl past m = m.across w := by
  induction w generalizing m with
  | nil => rfl
  | cons c w ih =>
    obtain ⟨b, bs, h⟩ := exists_encoding c
    rw [bytes_cons, h.eq, List.foldl_append, foldl_past_encoding m h, ih, ← across_append,
      List.singleton_append]

end Mark

end Lox
