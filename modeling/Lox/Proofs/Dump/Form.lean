import Lox.Proofs.Dump.Quoted
import Lox.Proofs.Token.Printing
/-!
# Lists in parentheses are read back

A form is a word, or a list of forms in parentheses with blanks between them. Words are tokens,
strings among them shown with their quotes. Where a form ends can be seen from its text: a word goes
on to a blank or a closing parenthesis, a quoted string to its closing quote, and a list to its
closing parenthesis. So no two forms have the same text.
-/

namespace Lox

open Piece

/-! ### Words -/

namespace TokenKind

/-- A token as it is shown in a form. -/
def shown : TokenKind → String
  | string s => Quoted.encode s
  | k => k.text

/-- The tokens that stand in forms. -/
structure Word (k : TokenKind) : Prop where
  printable : k.Printable
  opening : k ≠ .symbol .leftParen
  closing : k ≠ .symbol .rightParen

end TokenKind

/-- The characters that a word may end before. -/
def EndsWord (c : Char) : Prop := isBlank c = true ∨ c = ')'

instance : DecidablePred EndsWord :=
  fun c => inferInstanceAs (Decidable (isBlank c = true ∨ c = ')'))

/-- The characters of words that are no strings. -/
def InWord (c : Char) : Prop := ¬ EndsWord c ∧ c ≠ '"' ∧ c ≠ '('

instance : DecidablePred InWord :=
  fun c => inferInstanceAs (Decidable (¬ EndsWord c ∧ c ≠ '"' ∧ c ≠ '('))

variable {w xs ys : List Char} {c : Char} {j k : TokenKind}

theorem TokenKind.Word.keyword (w : Keyword) : Word (.keyword w) := ⟨trivial, nofun, nofun⟩

theorem TokenKind.Word.symbol {s : Symbol} (ho : s ≠ .leftParen) (hc : s ≠ .rightParen) :
    Word (.symbol s) :=
  ⟨trivial, fun h => ho (symbol.inj h), fun h => hc (symbol.inj h)⟩

theorem inWord_of_isLetterOrDigit (h : isLetterOrDigit c = true) : InWord c := by
  obtain ⟨hblank, hquote, -⟩ := plain_of_isLetterOrDigit h
  have hclose : c ≠ ')' := by
    rintro rfl
    cases h
  refine ⟨by simp [EndsWord, hblank, hclose], hquote, ?_⟩
  rintro rfl
  cases h

private theorem inWord_symbol {s : Symbol} (ho : s ≠ .leftParen) (hc : s ≠ .rightParen) :
    ∀ c ∈ s.text.toList, InWord c := by
  obtain ⟨c, t, ht, hs⟩ := s.text_forms
  obtain ⟨hblank, hquote, -⟩ := plain_of_ofChar? ht
  have hopen : c ≠ '(' := by
    rintro rfl
    cases ht
    obtain ⟨-, rfl⟩ | ⟨-, h⟩ := hs
    · exact ho rfl
    · cases h
  have hclose : c ≠ ')' := by
    rintro rfl
    cases ht
    obtain ⟨-, rfl⟩ | ⟨-, h⟩ := hs
    · exact hc rfl
    · cases h
  have hfirst : InWord c := ⟨by simp [EndsWord, hblank, hclose], hquote, hopen⟩
  obtain ⟨hs, -⟩ | ⟨hs, -⟩ := hs <;> rw [hs]
  · exact List.forall_mem_singleton.mpr hfirst
  · exact List.forall_mem_cons.mpr ⟨hfirst, List.forall_mem_singleton.mpr (by decide)⟩

/-- In a lexeme that is neither a string nor a parenthesis there are no blanks,
quotes and parentheses. -/
theorem Lexeme.unquoted (h : Lexeme w k) (hs : ∀ s, k ≠ .string s) (hopen : k ≠ .symbol .leftParen)
    (hclose : k ≠ .symbol .rightParen) : ∀ c ∈ w, InWord c := by
  have hdigit : ∀ c : Char, c.isDigit = true → InWord c := fun c hc =>
    inWord_of_isLetterOrDigit (isLetterOrDigit_iff.mpr (.inr hc))
  have hletters : ∀ {c : Char} {cs : List Char}, isLetter c = true →
      (∀ d ∈ cs, isLetterOrDigit d = true) →
      ∀ d ∈ c :: cs, InWord d := fun hc hcs =>
    List.forall_mem_cons.mpr
      ⟨inWord_of_isLetterOrDigit (isLetterOrDigit_iff.mpr (.inl hc)), fun d hd =>
      inWord_of_isLetterOrDigit (hcs d hd)⟩
  cases h with
  | symbol s =>
    exact inWord_symbol (fun hs => hopen (congrArg _ hs)) fun hs => hclose (congrArg _ hs)
  | keyword w =>
    obtain ⟨c, cs, hw, hc, hcs⟩ := Lexeme.keyword_letters w
    exact hw ▸ hletters hc hcs
  | identifier hc hcs => exact hletters hc hcs
  | string => exact absurd rfl (hs _)
  | whole _ hds => exact fun c h => hdigit c (hds c h)
  | fraction _ hds _ hfs =>
    exact List.forall_mem_append.mpr ⟨fun c h => hdigit c (hds c h),
      List.forall_mem_cons.mpr ⟨by decide, fun c h => hdigit c (hfs c h)⟩⟩

/-- A text is one token at most. -/
theorem Lexeme.unique (hj : Lexeme w j) (hk : Lexeme w k) : j = k := by
  obtain ⟨c, cs, rfl⟩ := List.exists_cons_of_ne_nil hj.ne_nil
  have hfirst : ∀ {k}, Lexeme (c :: cs) k → first c cs = ⟨.token k, c :: cs⟩ := fun h => by
    have hblank : ∀ c ∈ ([] : List Char).head?, Piece.isBlank c = true := nofun
    have hlongest := h.longest_of_blank hblank
    have hcomment := h.not_comment_of_blank hblank
    rw [List.append_nil] at hlongest hcomment
    exact first_of_longest hlongest hcomment
  have heq := (hfirst hj).symm.trans (hfirst hk)
  exact Meaning.token.inj (Piece.mk.inj heq).1

namespace TokenKind.Word

/-- A word that is no string. -/
theorem unquoted (h : k.Word) (hs : ∀ s, k ≠ .string s) :
    k.shown = k.text ∧ ∀ c ∈ k.shown.toList, InWord c := by
  have hshown : k.shown = k.text := by
    cases k with
    | string s => exact absurd rfl (hs s)
    | _ => rfl
  exact ⟨hshown, hshown ▸ h.printable.lexeme.unquoted hs h.opening h.closing⟩

/-- A word begins with no parenthesis, and what ends a word begins none. -/
theorem exists_cons (h : k.Word) : ∃ c cs, k.shown.toList = c :: cs ∧ ¬ EndsWord c ∧ c ≠ '(' := by
  by_cases hs : ∃ s, k = .string s
  · obtain ⟨s, rfl⟩ := hs
    exact ⟨'"', _, by rw [shown, Quoted.encode, String.toList_ofList, List.cons_append], by
      decide, by decide⟩
  · obtain ⟨hshown, hplain⟩ := h.unquoted fun s hk => hs ⟨s, hk⟩
    obtain ⟨c, cs, hc⟩ := List.exists_cons_of_ne_nil h.printable.lexeme.ne_nil
    rw [← hshown] at hc
    obtain ⟨hstop, -, hopen⟩ := hplain c (hc ▸ List.mem_cons_self)
    exact ⟨c, cs, hc, hstop, hopen⟩

private theorem shown_inj (hj : j.Word) (hk : k.Word) (hxs : ∀ c ∈ xs.head?, EndsWord c)
    (hys : ∀ c ∈ ys.head?, EndsWord c) (h : j.shown.toList ++ xs = k.shown.toList ++ ys) :
    j = k ∧ xs = ys := by
  -- What is no string does not begin with a quote.
  have hquote : ∀ {s : String} {k : TokenKind} {xs ys : List Char}, k.Word → (∀ s, k ≠ .string s) →
      (TokenKind.string s).shown.toList ++ xs ≠ k.shown.toList ++ ys := by
    intro s k xs ys hk hs h
    obtain ⟨c, cs, hc, -⟩ := hk.exists_cons
    have hne := ((hk.unquoted hs).2 c (hc ▸ List.mem_cons_self)).2.1
    rw [hc, shown, Quoted.encode, String.toList_ofList] at h
    exact hne (List.cons.inj h).1.symm
  by_cases hsj : ∃ s, j = .string s <;> by_cases hsk : ∃ s, k = .string s
  · obtain ⟨s, rfl⟩ := hsj
    obtain ⟨t, rfl⟩ := hsk
    exact (Quoted.encode_inj h).imp_left (congrArg _)
  · obtain ⟨s, rfl⟩ := hsj
    exact absurd h (hquote hk fun s hs => hsk ⟨s, hs⟩)
  · obtain ⟨s, rfl⟩ := hsk
    exact absurd h.symm (hquote hj fun s hs => hsj ⟨s, hs⟩)
  · obtain ⟨hjt, hjs⟩ := hj.unquoted fun s hs => hsj ⟨s, hs⟩
    obtain ⟨hkt, hks⟩ := hk.unquoted fun s hs => hsk ⟨s, hs⟩
    have hcut : ∀ {w xs : List Char}, (∀ c ∈ w, ¬ EndsWord c) → (∀ c ∈ xs.head?, EndsWord c) →
        (w ++ xs).takeWhile (fun c => ¬ EndsWord c) = w := fun hw hxs =>
      takeWhile_append_stop (fun c hc => by simpa using hw c hc) fun c hc => by simpa using hxs c hc
    have htext : j.shown.toList = k.shown.toList := by
      rw [← hcut (fun c hc => (hjs c hc).1) hxs, h, hcut (fun c hc => (hks c hc).1) hys]
    rw [htext] at h
    refine ⟨?_, List.append_cancel_left h⟩
    rw [hjt, hkt] at htext
    exact hj.printable.lexeme.unique (htext ▸ hk.printable.lexeme)

end TokenKind.Word

/-! ### Forms -/

/-- A word, or a list in parentheses. -/
inductive Form where
  | word (k : TokenKind)
  | list (members : List Form)

namespace Form

/-- A list that begins with a word. -/
def node (first : TokenKind) (members : List Form) : Form := list (word first :: members)

mutual

def text : Form → String
  | word k => k.shown
  | list ms => "(" ++ " ".intercalate (textAll ms) ++ ")"

def textAll : List Form → List String
  | [] => []
  | m :: ms => m.text :: textAll ms

end

mutual

/-- The tokens in a form. -/
def words : Form → List TokenKind
  | word k => [k]
  | list ms => wordsAll ms

def wordsAll : List Form → List TokenKind
  | [] => []
  | m :: ms => m.words ++ wordsAll ms

end

variable {f g : Form} {ms ns : List Form}

theorem textAll_eq_map (ms : List Form) : textAll ms = ms.map text := by
  induction ms with
  | nil => rfl
  | cons m ms ih => rw [textAll, ih, List.map_cons]

theorem mem_wordsAll : k ∈ wordsAll ms ↔ ∃ m ∈ ms, k ∈ m.words := by
  induction ms with
  | nil => simp [wordsAll]
  | cons m ms ih => simp [wordsAll, ih]

@[simp] theorem words_node : k ∈ (node j ms).words ↔ k = j ∨ ∃ m ∈ ms, k ∈ m.words := by
  simp [node, words, wordsAll, mem_wordsAll]

/-- Every word in the form is one that can be told from others. -/
def Readable (f : Form) : Prop := ∀ k ∈ f.words, k.Word

theorem readable_list (h : (list ms).Readable) : ∀ m ∈ ms, m.Readable := fun m hm k hk =>
  h k (mem_wordsAll.mpr ⟨m, hm, hk⟩)

theorem toList_text_list (ms : List Form) :
    (list ms).text.toList = '(' ::
      ([' '].intercalate (ms.map fun m => m.text.toList) ++ [')']) := by
  simp [text, textAll_eq_map, String.toList_append, Function.comp_def]

theorem exists_cons (h : f.Readable) : ∃ c cs, f.text.toList = c :: cs ∧ ¬ EndsWord c := by
  cases f with
  | word k =>
    obtain ⟨c, cs, hc, hstop, -⟩ := (h k (List.mem_singleton.mpr rfl)).exists_cons
    exact ⟨c, cs, hc, hstop⟩
  | list ms => exact ⟨'(', _, toList_text_list ms, by decide⟩

/-- The form and its end can be told from a text that begins with it. -/
def Told (f : Form) : Prop :=
  f.Readable → ∀ g : Form, g.Readable → ∀ xs ys : List Char, (∀ c ∈ xs.head?, EndsWord c) →
  (∀ c ∈ ys.head?, EndsWord c) → f.text.toList ++ xs = g.text.toList ++ ys → f = g ∧ xs = ys

/-- Forms with a separator between them, up to what is no separator. -/
theorem told_intercalate (hc : EndsWord c) (ht : ∀ m ∈ ms, m.Told) (hm : ∀ m ∈ ms, m.Readable)
    (hn : ∀ n ∈ ns, n.Readable) (hxs : ∀ d ∈ xs.head?, EndsWord d ∧ d ≠ c)
    (hys : ∀ d ∈ ys.head?, EndsWord d ∧ d ≠ c)
    (h : [c].intercalate (ms.map fun m => m.text.toList) ++ xs =
      [c].intercalate (ns.map fun n => n.text.toList) ++ ys) : ms = ns ∧ xs = ys := by
  have hempty : ∀ {n : Form} {ns : List Form} {xs ys : List Char}, n.Readable →
      (∀ d ∈ xs.head?, EndsWord d ∧ d ≠ c) →
      xs ≠ [c].intercalate ((n :: ns).map fun n => n.text.toList) ++ ys := by
    intro n ns xs ys hn hxs h
    obtain ⟨d, ds, hd, hstop⟩ := exists_cons hn
    have hhead : d ∈ xs.head? := by
      rw [h]
      cases ns <;> simp [List.intercalate, hd]
    exact hstop (hxs d hhead).1
  induction ms generalizing ns with
  | nil =>
    cases ns with
    | nil => exact ⟨rfl, h⟩
    | cons n ns => exact absurd h (hempty (hn n List.mem_cons_self) hxs)
  | cons m ms ih =>
    cases ns with
    | nil => exact absurd h.symm (hempty (hm m List.mem_cons_self) hys)
    | cons n ns =>
      obtain ⟨htm, htms⟩ := List.forall_mem_cons.mp ht
      obtain ⟨hmm, hms⟩ := List.forall_mem_cons.mp hm
      obtain ⟨hnn, hns⟩ := List.forall_mem_cons.mp hn
      have hmore : ∀ zs : List Char, ∀ d ∈ (c :: zs).head?, EndsWord d := by
        rintro zs _ ⟨⟩
        exact hc
      cases ms with
      | nil =>
        cases ns with
        | nil =>
          obtain ⟨rfl, hrest⟩ :=
            htm hmm n hnn xs ys (fun d hd => (hxs d hd).1) (fun d hd => (hys d hd).1)
            (by simpa using h)
          exact ⟨rfl, hrest⟩
        | cons n' ns =>
          obtain ⟨-, rfl⟩ :=
            htm hmm n hnn xs (c :: _) (fun d hd => (hxs d hd).1) (hmore _) (by simpa using h)
          exact absurd rfl (hxs c rfl).2
      | cons m' ms =>
        cases ns with
        | nil =>
          obtain ⟨-, rfl⟩ :=
            htm hmm n hnn (c :: _) ys (hmore _) (fun d hd => (hys d hd).1) (by simpa using h)
          exact absurd rfl (hys c rfl).2
        | cons n' ns =>
          obtain ⟨rfl, hrest⟩ := htm hmm n hnn _ _ (hmore _) (hmore _) (by simpa using h)
          obtain ⟨heq, hrest⟩ := ih htms hms hns (List.cons.inj hrest).2
          exact ⟨by rw [heq], hrest⟩

mutual

private theorem told : (f : Form) → f.Told
  | word j, hj, word k, hk, xs, ys, hxs, hys, h => by
    obtain ⟨rfl, hrest⟩ :=
      (hj j (List.mem_singleton.mpr rfl)).shown_inj (hk k (List.mem_singleton.mpr rfl)) hxs hys h
    exact ⟨rfl, hrest⟩
  | word j, hj, list ns, _, xs, ys, _, _, h => by
    obtain ⟨c, cs, hc, -, hopen⟩ := (hj j (List.mem_singleton.mpr rfl)).exists_cons
    rw [text, hc, toList_text_list] at h
    exact absurd (List.cons.inj h).1 hopen
  | list ms, _, word k, hk, xs, ys, _, _, h => by
    obtain ⟨c, cs, hc, -, hopen⟩ := (hk k (List.mem_singleton.mpr rfl)).exists_cons
    rw [text, hc, toList_text_list] at h
    exact absurd (List.cons.inj h).1.symm hopen
  | list ms, hm, list ns, hn, xs, ys, _, _, h => by
    have hclose : ∀ zs : List Char, ∀ d ∈ (')' :: zs).head?, EndsWord d ∧ d ≠ ' ' := by
      rintro zs _ ⟨⟩
      exact ⟨.inr rfl, by decide⟩
    rw [toList_text_list, toList_text_list] at h
    rw [List.cons_append, List.cons_append, List.append_assoc, List.append_assoc] at h
    have hinner := (List.cons.inj h).2
    obtain ⟨rfl, hrest⟩ :=
      told_intercalate (.inl rfl) (toldAll ms) (readable_list hm) (readable_list hn) (hclose xs)
      (hclose ys) hinner
    exact ⟨rfl, (List.cons.inj hrest).2⟩

theorem toldAll : (ms : List Form) → ∀ m ∈ ms, m.Told
  | [] => nofun
  | m :: ms => List.forall_mem_cons.mpr ⟨told m, toldAll ms⟩

end

/-- No two lists of forms have the same lines. -/
theorem lines_inj (hm : ∀ m ∈ ms, m.Readable) (hn : ∀ n ∈ ns, n.Readable)
    (h : "\n".intercalate (ms.map text) = "\n".intercalate (ns.map text)) : ms = ns := by
  have hlines := congrArg String.toList h
  rw [String.toList_intercalate, String.toList_intercalate, List.map_map, List.map_map] at hlines
  have hend := congrArg (· ++ []) hlines
  exact (told_intercalate (c := '\n') (.inl rfl) (toldAll ms) hm hn (by simp) (by simp) hend).1

end Form

end Lox
