import Mathlib.Data.List.TakeWhile
import Lox.Proofs.Likeness.Texts
/-!
# Lexemes

Which texts are tokens, said without a scanner, and what it means to account for a whole text:
blanks and comments, tokens each as long as it can be, characters that nothing begins with, and at
most one string that is not closed, at the end. There is one such account of every text, and it is
what the text is cut into.
-/

namespace Lox

open Piece

/-- The texts that have the form of a token, each with the token it is. -/
inductive Lexeme : List Char → TokenKind → Prop where
  | symbol (s : Symbol) : Lexeme s.text.toList (.symbol s)
  | keyword (w : Keyword) : Lexeme w.text.toList (.keyword w)
  | identifier {c cs} : isLetter c = true → (∀ d ∈ cs, isLetterOrDigit d = true) →
    (∀ w : Keyword, w.text.toList ≠ c :: cs) →
    Lexeme (c :: cs) (.identifier (String.ofList (c :: cs)))
  | string {cs} : '"' ∉ cs → Lexeme ('"' :: (cs ++ ['"'])) (.string (String.ofList cs))
  | whole {ds} : ds ≠ [] → (∀ d ∈ ds, d.isDigit = true) → Lexeme ds (.number (numberOfDigits ds []))
  | fraction {ds fs} : ds ≠ [] → (∀ d ∈ ds, d.isDigit = true) → fs ≠ [] →
      (∀ d ∈ fs, d.isDigit = true) →
    Lexeme (ds ++ '.' :: fs) (.number (numberOfDigits ds fs))

/-- `w` is the longest text of the form of a token that `text` begins with. -/
structure Lexeme.Longest (w : List Char) (k : TokenKind) (text : List Char) : Prop where
  lexeme : Lexeme w k
  starts : w <+: text
  longest : ∀ v j, Lexeme v j → v <+: text → v.length ≤ w.length

/-- The pieces are what there is to say about the text, from its first character to its last. -/
inductive Piece.Accounts : List Char → List Piece → Prop where
  | nil : Accounts [] []
  | blank {c cs ps} : isBlank c = true → Accounts cs ps → Accounts (c :: cs) (⟨.blank, [c]⟩ :: ps)
  /-- A comment ends before a line feed or at the end of the text. -/
  | comment {body cs ps} : '\n' ∉ body → (∀ c ∈ cs.head?, c = '\n') → Accounts cs ps →
    Accounts ('/' :: '/' :: body ++ cs) (⟨.blank, '/' :: '/' :: body⟩ :: ps)
  | token {w k cs ps} : Lexeme.Longest w k (w ++ cs) → ¬ ['/', '/'] <+: w ++ cs → Accounts cs ps →
    Accounts (w ++ cs) (⟨.token k, w⟩ :: ps)
  | unexpected {c cs ps} : isBlank c = false → c ≠ '"' → (∀ v j, Lexeme v j → ¬ v <+: c :: cs) →
      Accounts cs ps →
    Accounts (c :: cs) (⟨.error (.unexpectedCharacter c), [c]⟩ :: ps)
  | unterminated {body} : '"' ∉ body →
      Accounts ('"' :: body) [⟨.error .unterminatedString, '"' :: body⟩]

namespace Lexeme

/-! ### How a token begins -/

theorem ne_nil {w : List Char} {k : TokenKind} (h : Lexeme w k) : w ≠ [] := by
  cases h with
  | symbol s => cases s <;> decide
  | keyword w => cases w <;> decide
  | identifier | string => exact List.cons_ne_nil _ _
  | whole h => exact h
  | fraction h => exact List.append_ne_nil_of_left_ne_nil h _

end Lexeme

/-! ### Stretches of characters -/

section

variable {α : Type} {P : α → Bool} {v cs : List α}

theorem prefix_takeWhile (h : v <+: cs) (hv : ∀ d ∈ v, P d = true) : v <+: cs.takeWhile P := by
  obtain ⟨t, rfl⟩ := h
  rw [List.takeWhile_append_of_pos hv]
  exact List.prefix_append _ _

theorem takeWhile_append_stop (hv : ∀ d ∈ v, P d = true) (hcs : ∀ d ∈ cs.head?, P d = false) :
    (v ++ cs).takeWhile P = v := by
  rw [List.takeWhile_append_of_pos hv]
  cases cs with
  | nil => simp
  | cons d cs => simp [hcs d rfl]

theorem dropWhile_append_stop (hv : ∀ d ∈ v, P d = true) (hcs : ∀ d ∈ cs.head?, P d = false) :
    (v ++ cs).dropWhile P = cs := by
  rw [List.dropWhile_append_of_pos hv]
  cases cs with
  | nil => rfl
  | cons d cs => simp [hcs d rfl]

end

section

variable {c : Char} {body cs : List Char}

/-- A text up to where the character first stands, or to the end. -/
theorem takeWhile_until (hbody : c ∉ body) (hcs : ∀ d ∈ cs.head?, d = c) :
    (body ++ cs).takeWhile (· ≠ c) = body :=
  takeWhile_append_stop (fun d hd => by simpa using ne_of_mem_of_not_mem hd hbody) fun d hd => by
    simp [hcs d hd]

theorem dropWhile_until (hbody : c ∉ body) (hcs : ∀ d ∈ cs.head?, d = c) :
    (body ++ cs).dropWhile (· ≠ c) = cs :=
  dropWhile_append_stop (fun d hd => by simpa using ne_of_mem_of_not_mem hd hbody) fun d hd => by
    simp [hcs d hd]

end

/-! ### The classes of characters -/

namespace Piece

variable {c : Char} {cs : List Char}

theorem isDigit_iff : c.isDigit = true ↔ 48 ≤ c.toNat ∧ c.toNat ≤ 57 := by
  simp only [Char.isDigit, ge_iff_le, Bool.and_eq_true, decide_eq_true_eq, UInt32.le_iff_toNat_le]
  rfl

theorem isLetterOrDigit_iff : isLetterOrDigit c = true ↔ isLetter c = true ∨ c.isDigit = true := by
  simp only [isLetterOrDigit, isLetter, Char.isAlphanum, Bool.or_eq_true]
  tauto

theorem isLetter_iff : isLetter c = true ↔
    65 ≤ c.toNat ∧ c.toNat ≤ 90 ∨ 97 ≤ c.toNat ∧ c.toNat ≤ 122 ∨ c.toNat = 95 := by
  have hval : c = '_' ↔ c.toNat = 95 := ⟨fun h => h ▸ rfl, fun h => Char.toNat_inj.mp h⟩
  change (c.isUpper || c.isLower || decide (c = '_')) = true ↔ _
  simp only [Bool.or_eq_true, decide_eq_true_eq, hval, or_assoc]
  unfold Char.isUpper Char.isLower
  simp only [ge_iff_le, Bool.and_eq_true, decide_eq_true_eq, UInt32.le_iff_toNat_le]
  rfl

theorem isBlank_iff : isBlank c = true ↔ c = ' ' ∨ c = '\t' ∨ c = '\r' ∨ c = '\n' := by
  simp only [isBlank, Bool.or_eq_true, decide_eq_true_eq, or_assoc]

theorem plain_of_isLetterOrDigit (h : isLetterOrDigit c = true) :
    isBlank c = false ∧ c ≠ '"' ∧ c ≠ '/' := by
  refine ⟨Bool.eq_false_iff.mpr fun hblank => ?_, ?_, ?_⟩
  · obtain rfl | rfl | rfl | rfl := isBlank_iff.mp hblank <;> cases h
  · rintro rfl
    cases h
  · rintro rfl
    cases h

/-- No symbol begins with what begins a blank, a string, a number or a word. -/
theorem plain_of_ofChar? {s : Symbol} (h : Symbol.ofChar? c = some s) :
    isBlank c = false ∧ c ≠ '"' ∧ c.isDigit = false ∧ isLetter c = false := by
  unfold Symbol.ofChar? at h
  split at h <;> cases h <;> decide

/-! ### The first piece, by the first character -/

theorem first_blank (h : isBlank c = true) : first c cs = ⟨.blank, [c]⟩ := by
  rw [first, if_pos h]

private theorem first_comment : first '/' ('/' :: cs) = comment ('/' :: cs) := rfl

theorem first_quote : first '"' cs = string cs := by
  rw [first, if_neg (by decide), if_neg (fun h => absurd h.1 (by decide)), if_pos rfl]

theorem first_letterOrDigit (h : isLetterOrDigit c = true) :
    first c cs = if c.isDigit = true then number c cs else word c cs := by
  obtain ⟨hblank, hquote, hslash⟩ := plain_of_isLetterOrDigit h
  rw [first, if_neg (Bool.eq_false_iff.mp hblank), if_neg (fun hc => hslash hc.1), if_neg hquote]
  split
  · rfl
  · exact if_pos ((isLetterOrDigit_iff.mp h).resolve_right ‹_›)

theorem first_digit (h : c.isDigit = true) : first c cs = number c cs := by
  rw [first_letterOrDigit (isLetterOrDigit_iff.mpr (.inr h)), if_pos h]

theorem first_letter (h : isLetter c = true) : first c cs = word c cs := by
  have hdigit : ¬ c.isDigit = true := fun hd => by
    have hl := isLetter_iff.mp h
    have hd := isDigit_iff.mp hd
    omega
  rw [first_letterOrDigit (isLetterOrDigit_iff.mpr (.inl h)), if_neg hdigit]

theorem first_symbol {s : Symbol} (h : Symbol.ofChar? c = some s) (hc : ¬ ['/', '/'] <+: c :: cs) :
    first c cs = symbol c s cs := by
  have hslash : ¬ (c = '/' ∧ cs.head? = some '/') := by
    rintro ⟨rfl, hcs⟩
    obtain ⟨ds, rfl⟩ := List.head?_eq_some_iff.mp hcs
    exact hc ⟨ds, rfl⟩
  obtain ⟨hblank, hquote, hdigit, hletter⟩ := plain_of_ofChar? h
  rw [first, if_neg (by simp [hblank]), if_neg hslash, if_neg hquote, if_neg (by simp [hdigit]),
    if_neg (by simp [hletter]), h]

end Piece

/-! ### The first piece is the longest lexeme -/

theorem Keyword.ofText?_eq_some {s : String} {w : Keyword} : ofText? s = some w ↔ w.text = s := by
  constructor
  · exact fun h => by simpa using List.find?_some h
  · rintro rfl
    cases w <;> decide

theorem Keyword.ofText?_eq_none {s : String} : ofText? s = none ↔ ∀ w : Keyword, w.text ≠ s := by
  rw [Option.eq_none_iff_forall_ne_some]
  exact forall_congr' fun w => not_congr ofText?_eq_some

theorem Symbol.text_of_ofChar? {c : Char} {s : Symbol} (h : Symbol.ofChar? c = some s) :
    s.text.toList = [c] := by
  unfold Symbol.ofChar? at h
  split at h <;> cases h <;> rfl

private theorem Symbol.text_of_withEq? {s t : Symbol} (h : s.withEq? = some t) :
    t.text.toList = s.text.toList ++ ['='] := by
  cases s <;> cases h <;> rfl

/-- A symbol is a character, or one and an equals sign. -/
theorem Symbol.text_forms (s : Symbol) : ∃ c t, Symbol.ofChar? c = some t ∧
    (s.text.toList = [c] ∧ t = s ∨ s.text.toList = [c, '='] ∧ t.withEq? = some s) := by
  cases s <;> first | exact ⟨_, _, rfl, .inl ⟨rfl, rfl⟩⟩ | exact ⟨_, _, rfl, .inr ⟨rfl, rfl⟩⟩

namespace Lexeme

variable {c : Char} {cs v w : List Char} {j k : TokenKind}

theorem keyword_letters (w : Keyword) :
    ∃ c cs, w.text.toList = c :: cs ∧ isLetter c = true ∧ ∀ d ∈ cs, isLetterOrDigit d = true := by
  cases w <;> exact ⟨_, _, rfl, by decide, List.all_eq_true.mp rfl⟩

/-- What may be said of a lexeme that a text begins with, next to the piece that is
cut off the text. -/
def Fits (v : List Char) (j : TokenKind) (p : Piece) : Prop :=
  ∃ w k, p = ⟨.token k, w⟩ ∧ (v.length < w.length ∨ v = w ∧ j = k)

theorem Fits.of_starts (hv : v <+: w) (hk : v = w → j = k) : Fits v j ⟨.token k, w⟩ := by
  refine ⟨w, k, rfl, ?_⟩
  rcases Nat.lt_or_ge v.length w.length with hlt | hge
  · exact .inl hlt
  · have heq := hv.eq_of_length (Nat.le_antisymm hv.length_le hge)
    exact .inr ⟨heq, hk heq⟩

private theorem fits_symbol (s : Symbol) (hv : s.text.toList <+: c :: cs)
    (hc : ¬ ['/', '/'] <+: c :: cs) : Fits s.text.toList (.symbol s) (first c cs) := by
  obtain ⟨d, t, ht, ⟨hs, rfl⟩ | ⟨hs, heq⟩⟩ := s.text_forms
  · rw [hs] at hv ⊢
    obtain rfl : d = c := (List.cons_prefix_cons.mp hv).1
    rw [first_symbol ht hc, Piece.symbol]
    split
    · exact ⟨_, _, rfl, .inl (by simp)⟩
    · exact ⟨_, _, rfl, .inr ⟨rfl, rfl⟩⟩
  · rw [hs] at hv ⊢
    obtain ⟨rfl, ds, rfl⟩ := List.cons_prefix_cons.mp hv
    rw [first_symbol ht hc, Piece.symbol, heq]
    exact ⟨_, _, rfl, .inr ⟨rfl, rfl⟩⟩

/-- Of words only one is a lexeme, the longest. -/
theorem fits_word (hc : isLetter c = true) (hv : v <+: cs)
    (hrest : ∀ d ∈ v, isLetterOrDigit d = true) (hj : (word c v).meaning = .token j) :
    Fits (c :: v) j (first c cs) := by
  have hprefix : c :: v <+: c :: cs.takeWhile isLetterOrDigit :=
    (List.prefix_cons_inj c).mpr (prefix_takeWhile hv hrest)
  have hself : v.takeWhile isLetterOrDigit = v := List.takeWhile_eq_self_iff.mpr hrest
  rw [first_letter hc]
  simp only [word, hself] at hj ⊢
  split
  all_goals
    rename_i hw
    refine Fits.of_starts hprefix fun heq => ?_
    rw [heq, hw] at hj
    exact (Meaning.token.inj hj).symm

private theorem fits_keyword (w : Keyword) (hv : w.text.toList <+: c :: cs) :
    Fits w.text.toList (.keyword w) (first c cs) := by
  obtain ⟨d, ds, hw, hd, hds⟩ := keyword_letters w
  have hlook : Keyword.ofText? (String.ofList (d :: ds)) = some w :=
    Keyword.ofText?_eq_some.mpr (by rw [← hw, String.ofList_toList])
  rw [hw] at hv ⊢
  obtain ⟨rfl, hds'⟩ := List.cons_prefix_cons.mp hv
  refine fits_word hd hds' hds ?_
  rw [word, List.takeWhile_eq_self_iff.mpr hds]
  simp only [hlook]

private theorem fits_identifier (hc : isLetter c = true) (hv : v <+: cs)
    (hrest : ∀ d ∈ v, isLetterOrDigit d = true) (hw : ∀ w : Keyword, w.text.toList ≠ c :: v) :
    Fits (c :: v) (.identifier (String.ofList (c :: v))) (first c cs) := by
  have hlook : Keyword.ofText? (String.ofList (c :: v)) = none :=
    Keyword.ofText?_eq_none.mpr fun w h => hw w (by rw [h, String.toList_ofList])
  refine fits_word hc hv hrest ?_
  rw [word, List.takeWhile_eq_self_iff.mpr hrest]
  simp only [hlook]

private theorem fits_string {body : List Char} (hbody : '"' ∉ body) (hv : body ++ ['"'] <+: cs) :
    Fits ('"' :: (body ++ ['"'])) (.string (String.ofList body)) (first '"' cs) := by
  obtain ⟨ds, rfl⟩ := hv
  have htake : (body ++ ['"'] ++ ds).takeWhile (· ≠ '"') = body := by
    rw [List.append_assoc]
    exact takeWhile_until hbody (by simp)
  rw [first_quote, Piece.string, htake, if_pos (by simp)]
  exact ⟨_, _, rfl, .inr ⟨rfl, rfl⟩⟩

private theorem fits_whole (hc : c.isDigit = true) (hv : v <+: cs)
    (hrest : ∀ d ∈ v, d.isDigit = true) :
    Fits (c :: v) (.number (numberOfDigits (c :: v) [])) (first c cs) := by
  have hprefix : c :: v <+: c :: cs.takeWhile Char.isDigit :=
    (List.prefix_cons_inj c).mpr (prefix_takeWhile hv hrest)
  rw [first_digit hc, number]
  split
  · refine ⟨_, _, rfl, .inl ?_⟩
    have hlen := hprefix.length_le
    simp only [List.length_append, List.length_cons] at hlen ⊢
    omega
  · exact .of_starts hprefix fun heq => by rw [heq]

private theorem fits_fraction {fs : List Char} (hc : c.isDigit = true)
    (hrest : ∀ d ∈ v, d.isDigit = true) (hfs : fs ≠ []) (hdigits : ∀ d ∈ fs, d.isDigit = true)
    (hv : v ++ '.' :: fs <+: cs) :
    Fits (c :: v ++ '.' :: fs) (.number (numberOfDigits (c :: v) fs)) (first c cs) := by
  obtain ⟨f, fs, rfl⟩ := List.exists_cons_of_ne_nil hfs
  obtain ⟨ds, rfl⟩ := hv
  have htake : (v ++ '.' :: f :: fs ++ ds).takeWhile Char.isDigit = v := by
    rw [List.append_assoc]
    exact takeWhile_append_stop hrest (by simp [Char.isDigit])
  have hdrop : (v ++ '.' :: f :: fs ++ ds).dropWhile Char.isDigit = '.' :: f :: (fs ++ ds) := by
    rw [List.append_assoc]
    exact dropWhile_append_stop hrest (by simp [Char.isDigit])
  obtain ⟨hf, hdigits⟩ := List.forall_mem_cons.mp hdigits
  rw [first_digit hc, number, htake, hdrop]
  simp only [fraction?, hf, if_true]
  refine .of_starts ?_ fun heq => ?_
  · exact (List.prefix_append_right_inj _).mpr
      ((List.prefix_cons_inj _).mpr ((List.prefix_cons_inj _).mpr
        (prefix_takeWhile (List.prefix_append _ _) hdigits)))
  · simp only [List.append_cancel_left_eq, List.cons.injEq, true_and] at heq
    rw [← heq]

/-- No lexeme that a text begins with is longer than the piece that is cut off the text. -/
theorem fits (h : Lexeme v j) (hv : v <+: c :: cs) (hc : ¬ ['/', '/'] <+: c :: cs) :
    Fits v j (first c cs) := by
  cases h with
  | symbol s => exact fits_symbol s hv hc
  | keyword w => exact fits_keyword w hv
  | identifier hletter hrest hw =>
    obtain ⟨rfl, hvs⟩ := List.cons_prefix_cons.mp hv
    exact fits_identifier hletter hvs hrest hw
  | string hbody =>
    obtain ⟨rfl, hvs⟩ := List.cons_prefix_cons.mp hv
    exact fits_string hbody hvs
  | @whole ds hne hds =>
    obtain ⟨d, ds, rfl⟩ := List.exists_cons_of_ne_nil hne
    obtain ⟨rfl, hvs⟩ := List.cons_prefix_cons.mp hv
    obtain ⟨hd, hds⟩ := List.forall_mem_cons.mp hds
    exact fits_whole hd hvs hds
  | @fraction ds fs hne hds hfs hdigits =>
    obtain ⟨d, ds, rfl⟩ := List.exists_cons_of_ne_nil hne
    obtain ⟨rfl, hvs⟩ := List.cons_prefix_cons.mp hv
    obtain ⟨hd, hds⟩ := List.forall_mem_cons.mp hds
    exact fits_fraction hd hds hfs hdigits hvs

end Lexeme

/-! ### The first piece is a lexeme -/

namespace Piece

variable {c : Char} {cs : List Char} {k : TokenKind}

theorem forall_takeWhile {P : Char → Bool} : ∀ d ∈ cs.takeWhile P, P d = true :=
  fun _ => List.mem_takeWhile_imp

private theorem lexeme_word (hc : isLetter c = true) (h : (word c cs).meaning = .token k) :
    Lexeme (word c cs).text k := by
  simp only [word] at h ⊢
  split at h
  all_goals
    rename_i hw
    cases h
    simp only
  · have htext := congrArg String.toList (Keyword.ofText?_eq_some.mp hw)
    rw [String.toList_ofList] at htext
    exact htext ▸ .keyword _
  · exact .identifier hc forall_takeWhile fun w heq =>
      Keyword.ofText?_eq_none.mp hw w (by rw [← heq, String.ofList_toList])

theorem lexeme_number (hc : c.isDigit = true) (h : (number c cs).meaning = .token k) :
    Lexeme (number c cs).text k := by
  have hwhole : ∀ d ∈ c :: cs.takeWhile Char.isDigit, d.isDigit = true :=
    List.forall_mem_cons.mpr ⟨hc, forall_takeWhile⟩
  simp only [number] at h ⊢
  split at h
  all_goals
    rename_i hf
    cases h
    simp only
  · unfold fraction? at hf
    split at hf
    · split at hf
      · rename_i hd
        cases hf
        exact .fraction (List.cons_ne_nil _ _) hwhole (List.cons_ne_nil _ _)
          (List.forall_mem_cons.mpr ⟨hd, forall_takeWhile⟩)
      · cases hf
    · cases hf
  · exact .whole (List.cons_ne_nil _ _) hwhole

private theorem lexeme_string (h : (string cs).meaning = .token k) : Lexeme (string cs).text k := by
  simp only [string] at h ⊢
  split at h
  · rename_i hlt
    cases h
    rw [if_pos hlt]
    exact .string fun hmem => by simpa using List.mem_takeWhile_imp hmem
  · cases h

private theorem lexeme_symbol {s : Symbol} (hs : Symbol.ofChar? c = some s)
    (h : (symbol c s cs).meaning = .token k) : Lexeme (symbol c s cs).text k := by
  have hc : s.text.toList = [c] := Symbol.text_of_ofChar? hs
  unfold symbol at h ⊢
  split at h
  · rename_i t heq hcs
    cases h
    have ht : t.text.toList = [c, '='] := by
      rw [Symbol.text_of_withEq? heq, hc, List.singleton_append]
    exact ht ▸ .symbol t
  · cases h
    exact hc ▸ .symbol s

/-- A first piece that is a token has the form of one. -/
theorem lexeme_first (h : (first c cs).meaning = .token k) : Lexeme (first c cs).text k := by
  unfold first at h ⊢
  split at h
  · cases h
  split at h
  · cases h
  rename_i hblank hslash
  rw [if_neg hblank, if_neg hslash]
  split at h
  · rename_i hquote
    rw [if_pos hquote]
    exact lexeme_string h
  rename_i hquote
  rw [if_neg hquote]
  split at h
  · rename_i hdigit
    rw [if_pos hdigit]
    exact lexeme_number hdigit h
  rename_i hdigit
  rw [if_neg hdigit]
  split at h
  · rename_i hletter
    rw [if_pos hletter]
    exact lexeme_word hletter h
  rename_i hletter
  rw [if_neg hletter]
  split at h
  · rename_i hs
    exact lexeme_symbol hs h
  · cases h

theorem not_comment_of_token (h : (first c cs).meaning = .token k) : ¬ ['/', '/'] <+: c :: cs := by
  rintro ⟨ds, hds⟩
  obtain ⟨rfl, rfl⟩ := List.cons_eq_cons.mp hds
  cases h

private theorem longest_first (h : (first c cs).meaning = .token k) :
    Lexeme.Longest (first c cs).text k (c :: cs) where
  lexeme := lexeme_first h
  starts := first_prefix c cs
  longest v j hv hstarts := by
    obtain ⟨w, k, hw, hlt | ⟨rfl, -⟩⟩ := hv.fits hstarts (not_comment_of_token h)
    · rw [hw]
      exact Nat.le_of_lt hlt
    · rw [hw]

theorem first_of_longest {w : List Char} (h : Lexeme.Longest w k (c :: cs))
    (hc : ¬ ['/', '/'] <+: c :: cs) : first c cs = ⟨.token k, w⟩ := by
  obtain ⟨w', k', hw, hlt | ⟨rfl, rfl⟩⟩ := h.lexeme.fits h.starts hc
  · have hlexeme : Lexeme (first c cs).text k' := lexeme_first (by rw [hw])
    have hstarts := first_prefix c cs
    have hle := h.longest _ _ hlexeme hstarts
    rw [hw] at hle
    exact absurd hlt (Nat.not_lt.mpr hle)
  · exact hw

private theorem exists_number (c : Char) (cs : List Char) : ∃ k w, number c cs = ⟨.token k, w⟩ := by
  simp only [number]
  split <;> exact ⟨_, _, rfl⟩

private theorem exists_word (c : Char) (cs : List Char) : ∃ k w, word c cs = ⟨.token k, w⟩ := by
  simp only [word]
  split <;> exact ⟨_, _, rfl⟩

private theorem exists_symbol (c : Char) (s : Symbol) (cs : List Char) :
    ∃ k w, symbol c s cs = ⟨.token k, w⟩ := by
  unfold symbol
  split <;> exact ⟨_, _, rfl⟩

theorem string_unterminated (h : '"' ∉ cs) :
    string cs = ⟨.error .unterminatedString, '"' :: cs⟩ := by
  have htake : cs.takeWhile (· ≠ '"') = cs :=
    List.takeWhile_eq_self_iff.mpr fun d hd => by simpa using ne_of_mem_of_not_mem hd h
  rw [string, htake, if_neg (Nat.lt_irrefl _)]

private theorem exists_string (h : '"' ∈ cs) : ∃ k w, string cs = ⟨.token k, w⟩ := by
  have hlt : (cs.takeWhile (· ≠ '"')).length < cs.length := by
    refine lt_of_le_of_ne (List.takeWhile_prefix _).length_le fun hlen => ?_
    have heq := (List.takeWhile_prefix (· ≠ '"')).eq_of_length hlen
    simpa using List.takeWhile_eq_self_iff.mp heq _ h
  rw [string, if_pos hlt]
  exact ⟨_, _, rfl⟩

/-- What the first piece may be. -/
inductive First (c : Char) (cs : List Char) : Prop where
  | blank (hc : isBlank c = true) (h : first c cs = ⟨.blank, [c]⟩)
  | comment (ds : List Char) (hc : c = '/') (hcs : cs = '/' :: ds)
  | token (k : TokenKind) (w : List Char) (h : first c cs = ⟨.token k, w⟩)
  | unterminated (hc : c = '"') (hcs : '"' ∉ cs) (h : first c cs =
      ⟨.error .unterminatedString, '"' :: cs⟩)
  | unexpected (hblank : isBlank c = false) (hquote : c ≠ '"') (hslash : c ≠ '/')
    (h : first c cs = ⟨.error (.unexpectedCharacter c), [c]⟩)

theorem first_cases (c : Char) (cs : List Char) : First c cs := by
  by_cases hblank : isBlank c = true
  · exact .blank hblank (first_blank hblank)
  by_cases hslash : ['/', '/'] <+: c :: cs
  · obtain ⟨rfl, ds, rfl⟩ := List.cons_prefix_cons.mp hslash
    exact .comment ds rfl rfl
  by_cases hquote : c = '"'
  · subst hquote
    by_cases hcs : '"' ∈ cs
    · obtain ⟨k, w, h⟩ := exists_string hcs
      exact .token k w h
    · exact .unterminated rfl hcs (string_unterminated hcs)
  by_cases hword : isLetterOrDigit c = true
  · rcases isLetterOrDigit_iff.mp hword with h | h
    · obtain ⟨k, w, hw⟩ := exists_word c cs
      exact .token k w ((first_letter h).trans hw)
    · obtain ⟨k, w, hw⟩ := exists_number c cs
      exact .token k w ((first_digit h).trans hw)
  cases hs : Symbol.ofChar? c with
  | some s =>
    obtain ⟨k, w, hw⟩ := exists_symbol c s cs
    exact .token k w ((first_symbol hs hslash).trans hw)
  | none =>
    have hne : c ≠ '/' := by
      rintro rfl
      cases hs
    refine .unexpected (by simpa using hblank) hquote hne ?_
    rw [isLetterOrDigit_iff, not_or] at hword
    rw [first, if_neg hblank, if_neg (fun h => hne h.1), if_neg hquote, if_neg hword.2,
      if_neg hword.1, hs]

/-! ### There is one account of each text -/

theorem all_append {w : List Char} {m : Meaning} (hw : w ≠ [])
    (h : ∀ c ds, w = c :: ds → first c (ds ++ cs) = ⟨m, w⟩) : all (w ++ cs) = ⟨m, w⟩ :: all cs := by
  obtain ⟨c, ds, rfl⟩ := List.exists_cons_of_ne_nil hw
  rw [List.cons_append, all_cons, h c ds rfl, ← List.cons_append, List.drop_left]

theorem all_comment {body : List Char} (hbody : '\n' ∉ body) (hcs : ∀ c ∈ cs.head?, c = '\n') :
    all ('/' :: '/' :: body ++ cs) = ⟨.blank, '/' :: '/' :: body⟩ :: all cs := by
  refine all_append (List.cons_ne_nil _ _) ?_
  rintro _ _ ⟨⟩
  rw [List.cons_append, first_comment, comment, ← List.cons_append,
    takeWhile_until (by simp [hbody]) hcs]

/-- What comes after two slashes, up to the end of the line. -/
theorem exists_comment (ds : List Char) :
    ∃ body cs, ds = body ++ cs ∧ '\n' ∉ body ∧ ∀ c ∈ cs.head?, c = '\n' := by
  refine ⟨ds.takeWhile (· ≠ '\n'), ds.dropWhile (· ≠ '\n'), List.takeWhile_append_dropWhile.symm,
    fun hmem => by simpa using List.mem_takeWhile_imp hmem, fun c hc => ?_⟩
  have hhead := List.head?_dropWhile_not (· ≠ '\n') ds
  rw [hc] at hhead
  simpa using hhead

/-- What a text is cut into accounts for it. -/
theorem accounts_all (cs : List Char) : Accounts cs (all cs) := by
  -- A comment is one piece but its slashes are two characters, so the induction is on the
  -- length of the text.
  induction hn : cs.length using Nat.strong_induction_on generalizing cs with
  | _ n ih =>
    subst hn
    cases cs with
    | nil => exact .nil
    | cons c cs =>
      have hrest := ih _ (Nat.lt_succ_of_le (length_drop_first c cs)) _ rfl
      cases first_cases c cs with
      | blank hc h =>
        rw [all_cons]
        rw [h] at hrest ⊢
        exact .blank hc hrest
      | comment ds hc hcs =>
        subst hc hcs
        obtain ⟨body, cs, rfl, hbody, hcs⟩ := exists_comment ds
        have hlt : cs.length < ('/' :: '/' :: (body ++ cs)).length := by simp; omega
        have hall := all_comment hbody hcs
        rw [List.cons_append, List.cons_append] at hall
        rw [hall]
        exact .comment hbody hcs (ih _ hlt cs rfl)
      | token k w h =>
        have hk : (first c cs).meaning = .token k := by rw [h]
        have hlongest := longest_first hk
        have hc := not_comment_of_token hk
        rw [all_cons]
        rw [h] at hlongest hrest ⊢
        obtain ⟨ds, hds⟩ := hlongest.starts
        rw [← hds] at hlongest hc hrest ⊢
        rw [List.drop_left] at hrest ⊢
        exact .token hlongest hc hrest
      | unterminated hc hcs h =>
        subst hc
        rw [all_cons, h, List.drop_length]
        exact .unterminated hcs
      | unexpected hblank hquote hslash h =>
        have hc : ¬ ['/', '/'] <+: c :: cs := fun h => hslash (List.cons_prefix_cons.mp h).1.symm
        rw [all_cons]
        rw [h] at hrest ⊢
        refine .unexpected hblank hquote (fun v j hv hstarts => ?_) hrest
        obtain ⟨w, k, hw, -⟩ := hv.fits hstarts hc
        rw [h] at hw
        cases hw

/-- No other pieces account for a text than those it is cut into. -/
theorem Accounts.eq_all {ps : List Piece} (h : Accounts cs ps) : ps = all cs := by
  induction h with
  | nil => rfl
  | blank hc _ ih =>
    rw [all_cons, first_blank hc, ih]
    rfl
  | comment hbody hcs _ ih => rw [all_comment hbody hcs, ih]
  | token hw hc _ ih =>
    rw [all_append hw.lexeme.ne_nil, ih]
    rintro c ds rfl
    exact first_of_longest hw hc
  | @unexpected c cs ps hblank hquote hnone _ ih =>
    have hfirst : first c cs = ⟨.error (.unexpectedCharacter c), [c]⟩ := by
      cases first_cases c cs with
      | blank hc => rw [hblank] at hc; cases hc
      | comment ds hc hcs => exact absurd ⟨cs, by rw [hc]; rfl⟩ (hnone _ _ (.symbol .slash))
      | token k w h =>
        have hstarts := first_prefix c cs
        exact absurd hstarts (hnone _ k (lexeme_first (by rw [h])))
      | unterminated hc => exact absurd hc hquote
      | unexpected _ _ _ h => exact h
    rw [all_cons, hfirst, ih]
    rfl
  | unterminated hbody =>
    rw [all_cons, first_quote, string_unterminated hbody, List.drop_length]
    rfl

end Piece

end Lox
