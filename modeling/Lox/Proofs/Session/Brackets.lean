import Mathlib.Algebra.Ring.Int.Defs
import Lox.Proofs.Session.Entries
/-!
# Brackets of an entry

Whether an entry goes on is decided by its tokens: by the numbers of opening and closing brackets
among them, and by the string that may be left open. As only the numbers are compared, an entry
that is complete has all its brackets closed if and only if the count of open brackets is nowhere
less than at its end.
-/

namespace Lox

namespace TokenKind

/-- Whether a token is an opening brace or parenthesis. -/
def opens : TokenKind → Bool
  | symbol .leftBrace | symbol .leftParen => true
  | _ => false

/-- Whether a token is a closing brace or parenthesis. -/
def closes : TokenKind → Bool
  | symbol .rightBrace | symbol .rightParen => true
  | _ => false

private theorem weight_eq (k : TokenKind) :
    k.weight = (if k.opens then 1 else 0) - (if k.closes then 1 else 0) := by
  cases k with
  | symbol s => cases s <;> rfl
  | number | string | identifier | keyword | eof => rfl

private theorem depth_eq_countP (w : List TokenKind) :
    depth w = w.countP opens - w.countP closes := by
  induction w with
  | nil => rfl
  | cons k w ih =>
    rw [depth, ih, weight_eq, List.countP_cons, List.countP_cons]
    cases k.opens <;> cases k.closes <;> simp <;> omega

end TokenKind

namespace Entry

/-! ### Entries and their tokens -/

theorem isComplete_iff (s : String) :
    isComplete s = true ↔ (scan .code 0 s.toList).1 = false ∧ (scan .code 0 s.toList).2 ≤ 0 := by
  simp [isComplete]

private theorem natAbs_scan_take_le (cs : List Char) (n : Nat) :
    (scan .code 0 (cs.take n)).2.natAbs ≤ n := by
  have hbounds := scan_bounds .code 0 (cs.take n)
  have hlen := List.length_take_le n cs
  omega

/-- An entry is complete if and only if the byte scanner reports no open string in it and finds no
more opening than closing brackets among its tokens. The errors that are reported are all that are
found, those that the sink has no room for included. All along the text the count stays within the
number of the characters that have been read. -/
theorem isComplete_iff_lex (f : SourceFile) (fallback : Float) :
    ∃ tokens errors, Scanner.lex f fallback = some (tokens, errors) ∧
      tokens.map Scanned.toToken = (Lexed.ofText f.text).tokens ∧
      errors = .ofErrors f (Lexed.ofText f.text).errors ∧
      (isComplete f.text = true ↔
        .unterminatedString ∉ (Lexed.ofText f.text).errors.map Located.item ∧
          tokens.countP (·.kind.opens) ≤ tokens.countP (·.kind.closes)) ∧
      ∀ n, (scan .code 0 (f.text.toList.take n)).2.natAbs ≤ n := by
  have htokens : (Scanned.ofPieces .start (Piece.all f.text.toList)).map Scanned.toToken =
      (Lexed.ofText f.text).tokens := Scanned.map_toToken_ofPieces _ _
  refine ⟨_, _, Scanner.lex_eq f fallback, htokens, rfl, ?_, natAbs_scan_take_le _⟩
  obtain ⟨hstring, hdepth⟩ := scan_ofText f.text
  rw [← htokens, List.map_map, TokenKind.depth_eq_countP, List.countP_map,
    List.countP_map] at hdepth
  rw [isComplete_iff, ← Bool.not_eq_true, hstring, hdepth]
  exact and_congr_right fun _ => ⟨fun h => Int.ofNat_le.mp (Int.le_of_sub_nonpos h), fun h =>
    Int.sub_nonpos_of_le (Int.ofNat_le.mpr h)⟩

/-! ### Places -/

/-- Where each character of a text stands. The quotes of a string and the slashes of a
comment stand in it. -/
def places : Mode → List Char → List Mode
  | _, [] => []
  | .string, c :: cs => .string :: places (if c = '"' then .code else .string) cs
  | .comment, c :: cs => .comment :: places (if c = '\n' then .code else .comment) cs
  | .code, '/' :: '/' :: cs => .comment :: .comment :: places .comment cs
  | .code, c :: cs => if c = '"' then .string :: places .string cs else .code :: places .code cs

/-- By how much each character of a text changes the number of open brackets. -/
def changes (m : Mode) (cs : List Char) : List Int :=
  List.zipWith (fun p c => if p = .code then weight c else 0) (places m cs) cs

private theorem scan_eq_sum (m : Mode) (d : Int) (cs : List Char) :
    (scan m d cs).2 = d + (changes m cs).sum := by
  fun_induction scan m d cs with
  | case1 => simp [changes]
  | case2 d c cs ih | case3 d c cs ih => simpa [changes, places] using ih
  | case4 d cs ih => simpa [changes, places] using ih
  | case5 d cs h ih => simpa [changes, places] using ih
  | case6 d c cs hslash hquote ih =>
    rw [ih, changes, changes, places, if_neg hquote, List.zipWith_cons_cons, if_pos rfl,
      List.sum_cons, Int.add_assoc]
    exact hslash

private theorem length_places (m : Mode) (cs : List Char) : (places m cs).length = cs.length := by
  fun_induction places m cs <;> simp_all

theorem length_changes (m : Mode) (cs : List Char) : (changes m cs).length = cs.length := by
  rw [changes, List.length_zipWith, length_places, Nat.min_self]

/-- Whether the character at `i` of a text is an opening bracket of the code. -/
def Opens (s : String) (i : Nat) : Prop :=
  (places .code s.toList)[i]? = some .code ∧ (s.toList[i]? = some '\x7b' ∨ s.toList[i]? = some '(')

/-- Whether the character at `i` of a text is a closing bracket of the code. -/
def Closes (s : String) (i : Nat) : Prop :=
  (places .code s.toList)[i]? = some .code ∧ (s.toList[i]? = some '\x7d' ∨ s.toList[i]? = some ')')

/-- The number of opening brackets among the characters from `i` up to `j`, less that of
the closing ones. -/
def count (s : String) (i j : Nat) : Int := (((changes .code s.toList).take j).drop i).sum

/-- The bracket at `i` is closed by a later one: there the count that starts with
it returns to zero. -/
def Closed (s : String) (i : Nat) : Prop := ∃ j, i < j ∧ Closes s j ∧ count s i (j + 1) = 0

/-! ### Changes of the count -/

variable {s : String} {i j : Nat} {w : Int}

private theorem weight_eq_one_iff (c : Char) : weight c = 1 ↔ c = '\x7b' ∨ c = '(' := by
  unfold weight
  split
  · simp [*]
  · split <;> simp [*]

private theorem weight_eq_neg_one_iff (c : Char) : weight c = -1 ↔ c = '\x7d' ∨ c = ')' := by
  unfold weight
  split
  · rename_i h
    rcases h with rfl | rfl <;> decide
  · split <;> simp [*]

private theorem weight_cases (c : Char) : weight c = 1 ∨ weight c = -1 ∨ weight c = 0 := by
  unfold weight
  split
  · exact .inl rfl
  · split
    · exact .inr (.inl rfl)
    · exact .inr (.inr rfl)

/-- A change at a place that is not zero is that of a character of code. -/
theorem getElem?_changes_iff (hw : w ≠ 0) :
    (changes .code s.toList)[i]? = some w ↔
      (places .code s.toList)[i]? = some .code ∧ ∃ c, s.toList[i]? = some c ∧ weight c = w := by
  rw [changes, List.getElem?_zipWith]
  cases hp : (places .code s.toList)[i]? with
  | none => simp
  | some p =>
    cases hc : s.toList[i]? with
    | none => simp
    | some c =>
      by_cases hcode : p = .code
      · simp [hcode]
      · simp [hcode, Ne.symm hw]

theorem opens_iff : Opens s i ↔ (changes .code s.toList)[i]? = some 1 := by
  rw [getElem?_changes_iff (by decide), Opens]
  simp only [weight_eq_one_iff]
  grind

theorem closes_iff : Closes s i ↔ (changes .code s.toList)[i]? = some (-1) := by
  rw [getElem?_changes_iff (by decide), Closes]
  simp only [weight_eq_neg_one_iff]
  grind

theorem exists_change (hi : i < s.length) :
    ∃ w, (changes .code s.toList)[i]? = some w ∧ (w = 1 ∨ w = -1 ∨ w = 0) := by
  have hlen : i < (changes .code s.toList).length := by rwa [length_changes, String.length_toList]
  refine ⟨_, List.getElem?_eq_getElem hlen, ?_⟩
  simp only [changes, List.getElem_zipWith]
  split
  · exact weight_cases _
  · exact .inr (.inr rfl)

theorem lt_of_change (h : (changes .code s.toList)[i]? = some w) : i < s.length := by
  obtain ⟨hlen, -⟩ := List.getElem?_eq_some_iff.mp h
  rwa [length_changes, String.length_toList] at hlen

theorem count_zero (s : String) (j : Nat) : count s 0 j = ((changes .code s.toList).take j).sum :=
  rfl

theorem count_eq_sub (h : i ≤ j) : count s i j = count s 0 j - count s 0 i := by
  have hsplit := List.take_append_drop i ((changes .code s.toList).take j)
  rw [List.take_take, Nat.min_eq_left h] at hsplit
  have hsum := congrArg List.sum hsplit
  rw [List.sum_append] at hsum
  rw [count, count_zero, count_zero]
  omega

theorem count_succ (h : (changes .code s.toList)[j]? = some w) :
    count s 0 (j + 1) = count s 0 j + w := by
  rw [count_zero, count_zero, List.take_add_one, h, List.sum_append]
  simp

/-! ### Brackets that are closed -/

/-- Where the count has come back to what it was before an opening bracket, the
bracket has been closed. -/
theorem Opens.closed_of_count_le (hi : Opens s i) (hij : i < j) (hj : j ≤ s.length)
    (hle : count s 0 j ≤ count s 0 i) : Closed s i := by
  induction j with
  | zero => exact absurd hij (Nat.not_lt_zero i)
  | succ j ih =>
    obtain ⟨w, hw, hone⟩ := exists_change (Nat.lt_of_succ_le hj)
    have hsucc := count_succ hw
    obtain rfl | hlt := Nat.eq_or_lt_of_le (Nat.le_of_lt_succ hij)
    · have hopen := count_succ (opens_iff.mp hi)
      omega
    · by_cases hearly : count s 0 j ≤ count s 0 i
      · exact ih hlt (Nat.le_of_succ_le hj) hearly
      · -- The count falls by one at a time, so it returns just here.
        have hclose : w = -1 := by omega
        refine ⟨j, hlt, closes_iff.mpr (hclose ▸ hw), ?_⟩
        rw [count_eq_sub (by omega)]
        omega

/-- If every opening bracket is closed, the count is nowhere less than at the end. -/
theorem count_length_le (h : ∀ i, Opens s i → Closed s i) (hi : i ≤ s.length) :
    count s 0 s.length ≤ count s 0 i := by
  induction hn : s.length - i using Nat.strong_induction_on generalizing i with
  | _ n ih =>
    obtain rfl | hlt := Nat.eq_or_lt_of_le hi
    · exact Int.le_refl _
    · obtain ⟨w, hw, hone⟩ := exists_change hlt
      by_cases hopen : w = 1
      · obtain ⟨j, hij, hclose, hzero⟩ := h i (opens_iff.mpr (hopen ▸ hw))
        have hj := lt_of_change (closes_iff.mp hclose)
        have hlater := ih (s.length - (j + 1)) (by omega) (i := j + 1) hj rfl
        rw [count_eq_sub (by omega)] at hzero
        omega
      · have hlater := ih (s.length - (i + 1)) (by omega) (i := i + 1) hlt rfl
        have hsucc := count_succ hw
        omega

/-- In an entry that is complete the count is not greater at the end than at the start. Its brackets
are all closed if and only if the count is not greater at the end than anywhere, which it is not if
no bracket is closed that was not opened before. -/
theorem closed_iff_of_isComplete (hs : isComplete s = true) :
    count s 0 s.length ≤ 0 ∧
      ((∀ i, Opens s i → Closed s i) ↔ ∀ i ≤ s.length, count s 0 s.length ≤ count s 0 i) ∧
      ((∀ i ≤ s.length, 0 ≤ count s 0 i) → ∀ i, Opens s i → Closed s i) := by
  have hend : count s 0 s.length ≤ 0 := by
    have hsum := scan_eq_sum .code 0 s.toList
    have hdepth := ((isComplete_iff s).mp hs).2
    have hall : (changes .code s.toList).take s.length = changes .code s.toList :=
      List.take_of_length_le (by rw [length_changes, String.length_toList])
    rw [count_zero, hall]
    omega
  have hclosed : (∀ i ≤ s.length, count s 0 s.length ≤ count s 0 i) → ∀ i, Opens s i →
      Closed s i := by
    intro hleast i hi
    have hlt : i < s.length := lt_of_change (opens_iff.mp hi)
    exact hi.closed_of_count_le hlt (Nat.le_refl _) (hleast i (Nat.le_of_lt hlt))
  refine ⟨hend, ⟨fun h i hi => count_length_le h hi, hclosed⟩, fun hpos => hclosed fun i hi => ?_⟩
  exact Int.le_trans hend (hpos i hi)

/-- A closing bracket too many makes up for a later opening one, which is never closed. -/
theorem closed_iff_of_isComplete_surplus :
    isComplete "\x7d\x7b" = true ∧ count "\x7d\x7b" 0 2 = 0 ∧ count "\x7d\x7b" 0 1 = -1 ∧
      Opens "\x7d\x7b" 1 ∧ ¬ Closed "\x7d\x7b" 1 ∧ ¬ ∀ i, Opens "\x7d\x7b" i →
      Closed "\x7d\x7b" i := by
  have hs : isComplete "\x7d\x7b" = true := by decide
  have hopen : Opens "\x7d\x7b" 1 := ⟨by decide, .inl (by decide)⟩
  have hclosed : ¬ Closed "\x7d\x7b" 1 := by
    rintro ⟨j, hj, hclose, -⟩
    have hlast : j < 2 := lt_of_change (closes_iff.mp hclose)
    omega
  obtain ⟨-, hiff, -⟩ := closed_iff_of_isComplete hs
  refine ⟨hs, by decide, by decide, hopen, hclosed, fun hall => ?_⟩
  exact absurd (hiff.mp hall 1 (by decide)) (by decide)

end Entry

end Lox
