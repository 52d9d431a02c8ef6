import Lox.Proofs.Token.Lexemes
import Lox.Text.Quoted
/-!
# Quoted texts are taken apart in one way

No two characters are escaped alike, and the text that stands for one never begins like that for
another, nor with a quote. So the first quote that is not escaped ends a quoted text, and what was
quoted can be told from it.
-/

namespace Lox.Quoted

variable {c d : Char} {xs ys : List Char}

/-- The characters with a short escape, each with the letter after the backslash. -/
def shorts : List (Char × Char) :=
  [('"', '"'), ('\\', '\\'), ('\n', 'n'), ('\r', 'r'), ('\t', 't'), ('\x00', '0')]

/-- What may stand for a character. -/
inductive Escape (c : Char) : Prop where
  | plain (h : escape c = [c]) (hquote : c ≠ '"') (hslash : c ≠ '\\')
  | short (l : Char) (h : escape c = ['\\', l]) (hl : (c, l) ∈ shorts)
  | code (h : escape c = codePoint c)

theorem escape_cases (c : Char) : Escape c := by
  by_cases hshort : ∃ l, (c, l) ∈ shorts
  · obtain ⟨l, hl⟩ := hshort
    refine .short l ?_ hl
    simp only [shorts, List.mem_cons, Prod.mk.injEq, List.not_mem_nil, or_false] at hl
    obtain ⟨rfl, rfl⟩ | ⟨rfl, rfl⟩ | ⟨rfl, rfl⟩ | ⟨rfl, rfl⟩ | ⟨rfl, rfl⟩ | ⟨rfl, rfl⟩ := hl <;> rfl
  · have hne : ∀ p ∈ shorts, c ≠ p.1 := fun p hp h => hshort ⟨p.2, h ▸ hp⟩
    simp only [shorts, List.forall_mem_cons, List.not_mem_nil, false_implies, implies_true,
      and_true] at hne
    obtain ⟨hquote, hslash, hfeed, hreturn, htab, hnul⟩ := hne
    have hescape : escape c = codePoint c ∨ escape c = [c] := by
      rw [escape, if_neg hquote, if_neg hslash, if_neg hfeed, if_neg hreturn, if_neg htab,
        if_neg hnul]
      split_ifs <;> simp
    obtain h | h := hescape
    · exact .code h
    · exact .plain h hquote hslash

/-- The letters of short escapes tell the characters apart, and none of them is that of an
escape by code point. -/
theorem shorts_inj : ∀ p ∈ shorts, p.2 ≠ 'u' ∧ ∀ q ∈ shorts, p.2 = q.2 → p.1 = q.1 := by decide

/-! ### Code points -/

theorem digitChar_inj : ∀ m < 16, ∀ n < 16, Nat.digitChar m = Nat.digitChar n → m = n := by decide

private theorem mem_hexDigits {n : Nat} {a : Char} (h : a ∈ Nat.toDigits 16 n) :
    ∃ k < 16, a = Nat.digitChar k := by
  induction n using Nat.strong_induction_on with
  | _ n ih =>
    rw [Nat.toDigits_eq_if (by decide)] at h
    split at h
    · exact ⟨n, ‹_›, List.mem_singleton.mp h⟩
    · obtain h | h := List.mem_append.mp h
      · exact ih (n / 16) (by omega) h
      · exact ⟨n % 16, Nat.mod_lt _ (by decide), List.mem_singleton.mp h⟩

private theorem hexDigits_inj {m n : Nat} (h : Nat.toDigits 16 m = Nat.toDigits 16 n) : m = n := by
  induction m using Nat.strong_induction_on generalizing n with
  | _ m ih =>
    rw [Nat.toDigits_eq_if (n := m) (by decide), Nat.toDigits_eq_if (n := n) (by decide)] at h
    split at h <;> split at h <;> rename_i hm hn
    · exact digitChar_inj m hm n hn (List.cons.inj h).1
    · exact absurd (congrArg List.length h) (by simp)
    · exact absurd (congrArg List.length h) (by simp)
    · obtain ⟨hquotient, hlast⟩ := List.append_inj' h rfl
      have hremainder :=
        digitChar_inj _ (Nat.mod_lt m (by decide)) _ (Nat.mod_lt n (by decide))
          (List.cons.inj hlast).1
      have := ih (m / 16) (by omega) hquotient
      omega

private theorem codePoint_inj (h : codePoint c ++ xs = codePoint d ++ ys) : c = d ∧ xs = ys := by
  -- The digits end where the first brace is.
  have hbrace : ∀ n, '\x7d' ∉ Nat.toDigits 16 n := by
    intro n hmem
    obtain ⟨k, hk, heq⟩ := mem_hexDigits hmem
    exact absurd heq ((by decide : ∀ k < 16, '\x7d' ≠ Nat.digitChar k) k hk)
  have hrest : Nat.toDigits 16 c.toNat ++ '\x7d' :: xs =
      Nat.toDigits 16 d.toNat ++ '\x7d' :: ys := by
    simpa [codePoint] using h
  have hdigits : Nat.toDigits 16 c.toNat = Nat.toDigits 16 d.toNat := by
    have htake := congrArg (List.takeWhile (· ≠ '\x7d')) hrest
    rwa [takeWhile_until (hbrace _) (by simp), takeWhile_until (hbrace _) (by simp)] at htake
  refine ⟨Char.toNat_inj.mp (hexDigits_inj hdigits), ?_⟩
  rw [hdigits] at hrest
  exact (List.cons.inj (List.append_cancel_left hrest)).2

/-! ### Escapes -/

/-- What stands for a character shows which one it is and where it ends. -/
theorem escape_inj (h : escape c ++ xs = escape d ++ ys) : c = d ∧ xs = ys := by
  cases escape_cases c with
  | plain hc hquote hslash =>
    cases escape_cases d with
    | plain hd => simpa [hc, hd] using h
    | short l hd => simp [hc, hd, hslash] at h
    | code hd => simp [hc, hd, codePoint, hslash] at h
  | short l hc hl =>
    obtain ⟨hcode, hsame⟩ := shorts_inj _ hl
    cases escape_cases d with
    | plain hd _ hslash => simp [hc, hd, hslash.symm] at h
    | short m hd hm =>
      obtain ⟨hlm, hrest⟩ : l = m ∧ xs = ys := by simpa [hc, hd] using h
      exact ⟨hsame _ hm hlm, hrest⟩
    | code hd => simp [hc, hd, codePoint, hcode] at h
  | code hc =>
    cases escape_cases d with
    | plain hd _ hslash => simp [hc, hd, codePoint, hslash.symm] at h
    | short m hd hm => simp [hc, hd, codePoint, (shorts_inj _ hm).1.symm] at h
    | code hd => exact codePoint_inj (hc ▸ hd ▸ h)

theorem escape_ne_quote (c : Char) (xs ys : List Char) : escape c ++ xs ≠ '"' :: ys := by
  cases escape_cases c with
  | plain h hquote => simp [h, hquote]
  | short l h => simp [h]
  | code h => simp [h, codePoint]

/-- A quoted text ends where it is closed, and no two texts are quoted alike. -/
theorem encode_inj {s t : String} (h : (encode s).toList ++ xs = (encode t).toList ++ ys) :
    s = t ∧ xs = ys := by
  have hbody : ∀ cs ds : List Char, cs.flatMap escape ++ '"' :: xs =
      ds.flatMap escape ++ '"' :: ys →
      cs = ds ∧ xs = ys := by
    intro cs
    induction cs with
    | nil =>
      rintro (_ | ⟨d, ds⟩) h
      · exact ⟨rfl, (List.cons.inj h).2⟩
      · rw [List.flatMap_cons, List.append_assoc] at h
        exact absurd h.symm (escape_ne_quote _ _ _)
    | cons c cs ih =>
      rintro (_ | ⟨d, ds⟩) h
      · rw [List.flatMap_cons, List.append_assoc] at h
        exact absurd h (escape_ne_quote _ _ _)
      · rw [List.flatMap_cons, List.flatMap_cons, List.append_assoc, List.append_assoc] at h
        obtain ⟨rfl, hrest⟩ := escape_inj h
        obtain ⟨rfl, hxs⟩ := ih ds hrest
        exact ⟨rfl, hxs⟩
  have h' : s.toList.flatMap escape ++ '"' :: xs = t.toList.flatMap escape ++ '"' :: ys := by
    simpa [encode] using h
  exact (hbody _ _ h').imp_left String.toList_inj.mp

end Lox.Quoted
