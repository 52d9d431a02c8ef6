import Lox.Proofs.Token.Encoding
/-!
# Bytes and characters agree

At a mark that stands between two characters of a text the byte scanner does what is said of
the characters there, and stops between two characters again. So no cut falls into a character,
no loop runs out of fuel, and what it finds are the tokens and the errors of the pieces that
the text is cut into.
-/

namespace Lox

variable {text : String} {before rest cs w : List Char} {c : Char} {b : UInt8} {bs : List UInt8}
  {m : Mark}

/-- The mark stands in the text between `before` and `rest`. -/
structure Mark.At (m : Mark) (text : String) (before rest : List Char) : Prop where
  text_eq : text.toList = before ++ rest
  offset_eq : m.offset = (bytes before).length

theorem Encoding.single (hc : c.toNat < 128) : Encoding c c.toUInt8 [] := by
  obtain ⟨b, bs, h⟩ := exists_encoding c
  obtain ⟨rfl, hb⟩ := h.ascii hc
  have hbyte : b = c.toUInt8 := by
    rw [← UInt8.toNat_inj, hb]
    change _ = c.toNat % 256
    omega
  exact hbyte ▸ h

theorem Encoding.past_eq (h : Encoding c b bs) (hc : c.toNat < 128) (m : Mark) :
    m.past b = m.across [c] := by
  obtain ⟨rfl, -⟩ := h.ascii hc
  exact Mark.foldl_past_encoding m h

namespace Scanner

private theorem byte?_eq (text : String) (i : Nat) : byte? text i = (bytes text.toList)[i]? := by
  have htext : text.toByteArray = (bytes text.toList).toByteArray := by
    rw [← String.utf8Encode_toList]
    rfl
  rw [byte?, htext]
  by_cases h : i < (bytes text.toList).length
  · rw [List.getElem?_eq_getElem h, getElem?_pos _ _ (by simpa using h), List.getElem_toByteArray]
  · rw [List.getElem?_eq_none (Nat.le_of_not_lt h), getElem?_neg _ _ (by simpa using h)]

theorem skipWhile_eq {P : UInt8 → Bool} {n : Nat} (h : ∀ i, byte? text (m.offset + i) = bs[i]?)
    (hn : bs.length < n) : skipWhile text P n m = some ((bs.takeWhile P).foldl Mark.past m) := by
  induction n generalizing m bs with
  | zero => exact absurd hn (Nat.not_lt_zero _)
  | succ n ih =>
    have hbyte : byte? text m.offset = bs[0]? := h 0
    cases bs with
    | nil =>
      rw [skipWhile, hbyte]
      rfl
    | cons b bs =>
      have hrest : ∀ i, byte? text ((m.past b).offset + i) = bs[i]? := fun i => by
        have hnext := h (i + 1)
        rwa [List.getElem?_cons_succ, Nat.add_comm i, ← Nat.add_assoc] at hnext
      rw [skipWhile, hbyte, List.takeWhile_cons]
      dsimp only [List.getElem?_cons_zero]
      split
      · exact ih hrest (Nat.lt_of_succ_lt_succ hn)
      · rfl

end Scanner

open Scanner

/-! ### Marks in a text -/

namespace Mark.At

variable {P : Char → Bool}

theorem start (text : String) : Mark.start.At text [] text.toList := ⟨rfl, rfl⟩

theorem across (h : m.At text before (w ++ rest)) : (m.across w).At text (before ++ w) rest where
  text_eq := by rw [h.text_eq, List.append_assoc]
  offset_eq := by rw [Mark.across, h.offset_eq, bytes_append, List.length_append]

theorem across_char (h : m.At text before (c :: cs)) : (m.across [c]).At text (before ++ [c]) cs :=
  h.across (w := [c])

theorem byte?_add (h : m.At text before rest) (i : Nat) :
    byte? text (m.offset + i) = (bytes rest)[i]? := by
  rw [byte?_eq, h.text_eq, bytes_append, h.offset_eq,
    List.getElem?_append_right (Nat.le_add_right _ _), Nat.add_sub_cancel_left]

theorem byte?_head (h : m.At text before (c :: cs)) (he : Encoding c b bs) :
    byte? text m.offset = some b := by
  have hbyte := h.byte?_add 0
  rwa [he.bytes_eq] at hbyte

theorem byte?_nil (h : m.At text before []) : byte? text m.offset = none := h.byte?_add 0

theorem length_lt_fuel (h : m.At text before rest) : (bytes rest).length < fuel text := by
  have hsize : (bytes text.toList).length = text.utf8ByteSize := by
    rw [length_bytes, String.utf8Len_toList]
  rw [h.text_eq, bytes_append, List.length_append] at hsize
  rw [fuel]
  omega

theorem isAt_eq (h : m.At text before rest) (hP : SingleByte P) :
    isAt text P m.offset = rest.head?.any P := by
  cases rest with
  | nil => rw [isAt, h.byte?_nil]; rfl
  | cons c cs =>
    obtain ⟨b, bs, he⟩ := exists_encoding c
    rw [isAt, h.byte?_head he]
    exact he.test hP b List.mem_cons_self

theorem isAt_succ (h : m.At text before (c :: cs)) (hc : c.toNat < 128) (hP : SingleByte P) :
    isAt text P (m.offset + 1) = cs.head?.any P := by
  have hnext := h.across_char.isAt_eq hP
  rwa [← (Encoding.single hc).past_eq hc] at hnext

theorem skip_eq (h : m.At text before rest) (hP : SingleByte P) :
    skip text P m = some (m.across (rest.takeWhile P)) := by
  rw [skip, skipWhile_eq h.byte?_add h.length_lt_fuel, takeWhile_bytes hP, Mark.foldl_past]

theorem isValid (h : m.At text before rest) : String.Pos.Raw.IsValid text ⟨m.offset⟩ := by
  refine String.Pos.Raw.isValid_iff_exists_append.mpr ⟨String.ofList before,
    String.ofList rest, ?_, ?_⟩
  · rw [← String.ofList_append, ← h.text_eq, String.ofList_toList]
  · rw [h.offset_eq, length_bytes, String.rawEndPos_ofList]

theorem across_takeWhile (h : m.At text before (c :: cs)) (P : Char → Bool) :
    (m.across (c :: cs.takeWhile P)).At text (before ++ c :: cs.takeWhile P) (cs.dropWhile P) := by
  refine Mark.At.across ?_
  rwa [List.cons_append, List.takeWhile_append_dropWhile]

theorem skip_rest (h : m.At text before (c :: cs)) (hP : SingleByte P) :
    skip text P (m.across [c]) = some (m.across (c :: cs.takeWhile P)) := by
  rw [h.across_char.skip_eq hP, ← Mark.across_append, List.singleton_append]

/-- What a mark has gone over can be cut out of the text. -/
theorem slice?_eq (h : m.At text before (w ++ rest)) :
    slice? text m.offset (m.across w).offset = some (String.ofList w) := by
  have hle : m.offset ≤ (m.across w).offset := Nat.le_add_right _ _
  have htext : text = String.ofList (before ++ w ++ rest) := by
    rw [List.append_assoc, ← h.text_eq, String.ofList_toList]
  rw [slice?, if_pos ⟨hle, h.isValid, h.across.isValid⟩, Mark.across, h.offset_eq, length_bytes,
    length_bytes, htext, String.extract_of_valid]

end Mark.At

/-! ### One token or one error -/

private theorem numberOfText?_eq {x : Float} (h : Lexeme w (.number x)) :
    numberOfText? (String.ofList w) = some x := by
  cases h with
  | whole hne hds =>
    have htake : w.takeWhile Char.isDigit = w := List.takeWhile_eq_self_iff.mpr hds
    have hdrop : w.dropWhile Char.isDigit = [] := List.dropWhile_eq_nil_iff.mpr hds
    simp only [numberOfText?, String.toList_ofList, htake, hdrop, hne, if_false]
  | @fraction ds fs hne hds hfs hdigits =>
    have htake : (ds ++ '.' :: fs).takeWhile Char.isDigit = ds :=
      takeWhile_append_stop hds (by simp [Char.isDigit])
    have hdrop : (ds ++ '.' :: fs).dropWhile Char.isDigit = '.' :: fs :=
      dropWhile_append_stop hds (by simp [Char.isDigit])
    have hall : fs.all Char.isDigit = true := List.all_eq_true.mpr hdigits
    simp only [numberOfText?, String.toList_ofList, htake, hdrop, hne, hfs, hall, not_true, or_self,
      if_false]

private theorem fraction?_point (ds : List Char) :
    Piece.fraction? ('.' :: ds) = if ds.head?.any Char.isDigit then
      some (ds.takeWhile Char.isDigit) else none := by
  cases ds with
  | nil => rfl
  | cons d ds =>
    rw [Piece.fraction?, List.head?_cons, Option.any_some, List.takeWhile_cons]
    split <;> rfl

private theorem fraction?_of_ne {d : Char} (hd : d ≠ '.') (ds : List Char) :
    Piece.fraction? (d :: ds) = none := by
  simp [Piece.fraction?, hd]

private theorem Mark.At.skipNumber_eq (h : m.At text before (c :: cs)) :
    skipNumber text (m.across [c]) = some (m.across (Piece.number c cs).text) := by
  have hmark := h.across_takeWhile Char.isDigit
  rw [skipNumber, h.skip_rest singleByte_isDigit, Option.bind_eq_bind, Option.bind_some,
    Piece.number]
  cases hds : cs.dropWhile Char.isDigit with
  | nil =>
    rw [hds] at hmark
    rw [hmark.isAt_eq (singleByte_eq (by decide))]
    rfl
  | cons d ds =>
    rw [hds] at hmark
    rw [hmark.isAt_eq (singleByte_eq (by decide)), List.head?_cons, Option.any_some]
    by_cases hd : d = '.'
    · subst hd
      rw [hmark.isAt_succ (by decide) singleByte_isDigit, fraction?_point,
        (Encoding.single (by decide)).past_eq (by decide),
        hmark.across_char.skip_eq singleByte_isDigit, ← Mark.across_append, ← Mark.across_append,
        decide_eq_true rfl, Bool.true_and]
      cases ds.head?.any Char.isDigit <;> rfl
    · rw [decide_eq_false hd, fraction?_of_ne hd]
      rfl

/-- A number is what its text denotes. -/
theorem Mark.At.number_eq (h : m.At text before (c :: cs)) (hc : c.isDigit = true)
    (fallback : Float) :
    ∃ k, (Piece.number c cs).meaning = .token k ∧
      Scanner.number text fallback m.offset (m.across [c]) =
        some (k, m.across (Piece.number c cs).text) := by
  obtain ⟨x, hx⟩ : ∃ x, (Piece.number c cs).meaning = .token (.number x) := by
    simp only [Piece.number]
    split <;> exact ⟨_, rfl⟩
  obtain ⟨ds, hds⟩ := Piece.number_prefix c cs
  have hslice := (hds.symm ▸ h).slice?_eq
  refine ⟨_, hx, ?_⟩
  rw [Scanner.number, h.skipNumber_eq, Option.bind_eq_bind, Option.bind_some, hslice,
    Option.bind_eq_bind, Option.bind_some, numberOfText?_eq (Piece.lexeme_number hc hx),
    Option.getD_some]

private theorem Mark.At.word_eq (h : m.At text before (c :: cs)) :
    ∃ k, (Piece.word c cs).meaning = .token k ∧
      Scanner.word text m.offset (m.across [c]) = some (k, m.across (Piece.word c cs).text) := by
  have hcs : c :: cs = c ::
      cs.takeWhile Piece.isLetterOrDigit ++ cs.dropWhile Piece.isLetterOrDigit := by
    rw [List.cons_append, List.takeWhile_append_dropWhile]
  have hslice := (hcs ▸ h).slice?_eq
  rw [Scanner.word, h.skip_rest singleByte_isLetterOrDigit, Option.bind_eq_bind, Option.bind_some,
    hslice, Option.bind_eq_bind, Option.bind_some]
  simp only [Piece.word]
  cases Keyword.ofText? (String.ofList (c :: cs.takeWhile Piece.isLetterOrDigit)) <;>
    exact ⟨_, rfl, rfl⟩

/-- What a piece that is a token or an error is to the byte scanner. -/
inductive Meaning.Found : Meaning → Except LexicalError TokenKind → Prop where
  | token (k : TokenKind) : Found (.token k) (.ok k)
  | error (e : LexicalError) : Found (.error e) (.error e)

/-- A string without its quotes. -/
theorem slice?_quoted (body : List Char) :
    slice? (String.ofList ('"' :: (body ++ ['"']))) 1
      ((String.ofList ('"' :: (body ++ ['"']))).utf8ByteSize - 1) = some (String.ofList body) := by
  have hstart := Mark.At.start (String.ofList ('"' :: (body ++ ['"'])))
  rw [String.toList_ofList] at hstart
  have hslice := hstart.across_char.slice?_eq
  have hstop : ((Mark.start.across ['"']).across body).offset =
      (String.ofList ('"' :: (body ++ ['"']))).utf8ByteSize - 1 := by
    have hquote : '"'.utf8Size = 1 := by decide
    simp only [Mark.across, Mark.start, length_bytes, String.utf8ByteSize_ofList,
      String.utf8Len_cons, String.utf8Len_append, String.utf8Len_nil, hquote]
    omega
  rwa [hstop] at hslice

private theorem Mark.At.string_eq (h : m.At text before ('"' :: cs)) :
    ∃ r, (Piece.string cs).meaning.Found r ∧
      Scanner.string text m.offset (m.across ['"']) =
        some (r, m.across (Piece.string cs).text) := by
  have hmark := h.across_takeWhile (· ≠ '"')
  rw [Scanner.string, h.skip_rest (singleByte_ne (by decide)), Option.bind_eq_bind,
    Option.bind_some]
  by_cases hmem : '"' ∈ cs
  · obtain ⟨body, ds, rfl, hbody⟩ := List.eq_append_cons_of_mem hmem
    have htake : (body ++ '"' :: ds).takeWhile (· ≠ '"') = body := takeWhile_until hbody (by simp)
    have hdrop : (body ++ '"' :: ds).dropWhile (· ≠ '"') = '"' :: ds :=
      dropWhile_until hbody (by simp)
    rw [htake, hdrop] at hmark
    have hquote : Encoding '"' '"'.toUInt8 [] := .single (by decide)
    have htext : '"' :: (body ++ '"' :: ds) = '"' :: (body ++ ['"']) ++ ds := by simp
    have hslice := (htext ▸ h).slice?_eq
    have hstop : (m.across ('"' :: body)).past '"'.toUInt8 = m.across ('"' :: (body ++ ['"'])) := by
      rw [hquote.past_eq (by decide), ← Mark.across_append, List.cons_append]
    rw [htake, hmark.byte?_head hquote]
    simp only [hstop, hslice, Option.bind_eq_bind, Option.bind_some, slice?_quoted]
    rw [Piece.string, htake, if_pos (by simp)]
    exact ⟨_, .token _, rfl⟩
  · have htake : cs.takeWhile (· ≠ '"') = cs :=
      List.takeWhile_eq_self_iff.mpr fun d hd => by simpa using ne_of_mem_of_not_mem hd hmem
    have hdrop : cs.dropWhile (· ≠ '"') = [] :=
      List.dropWhile_eq_nil_iff.mpr fun d hd => by simpa using ne_of_mem_of_not_mem hd hmem
    rw [htake, hdrop] at hmark
    rw [htake, hmark.byte?_nil, Piece.string_unterminated hmem]
    exact ⟨_, .error _, rfl⟩

private theorem Mark.At.symbol_eq (h : m.At text before (c :: cs)) (s : Symbol) :
    ∃ k, (Piece.symbol c s cs).meaning = .token k ∧
      Scanner.symbol text s (m.across [c]) = (k, m.across (Piece.symbol c s cs).text) := by
  have heq : (m.across [c]).past '='.toUInt8 = m.across [c, '='] := by
    rw [(Encoding.single (by decide)).past_eq (by decide), ← Mark.across_append,
      List.singleton_append]
  rw [Scanner.symbol, h.across_char.isAt_eq (singleByte_eq (by decide)), Piece.symbol, heq]
  cases s.withEq? with
  | none => exact ⟨_, rfl, rfl⟩
  | some t =>
    cases cs with
    | nil => exact ⟨_, rfl, rfl⟩
    | cons d ds =>
      rw [List.head?_cons, Option.any_some]
      by_cases hd : d = '='
      · subst hd
        exact ⟨_, rfl, rfl⟩
      · rw [decide_eq_false hd]
        simp [hd]

private theorem Mark.At.unexpected_eq (h : m.At text before (c :: cs)) (he : Encoding c b bs) :
    Scanner.unexpected text m.offset (m.past b) =
      some (.error (.unexpectedCharacter c), m.across [c]) := by
  have hbytes : ∀ i, byte? text ((m.past b).offset + i) = (bs ++ bytes cs)[i]? := fun i => by
    have hnext := h.byte?_add (i + 1)
    rwa [he.bytes_eq, List.getElem?_cons_succ, Nat.add_comm i, ← Nat.add_assoc] at hnext
  have hfuel : (bs ++ bytes cs).length < fuel text := by
    have hlt := h.length_lt_fuel
    rw [he.bytes_eq, List.length_cons] at hlt
    omega
  -- The next character has a first byte, which is none of this one's.
  have htake : (bs ++ bytes cs).takeWhile isContinuation = bs := by
    refine takeWhile_append_stop he.others fun d hd => ?_
    cases cs with
    | nil => cases hd
    | cons e es =>
      obtain ⟨b', bs', he'⟩ := exists_encoding e
      rw [he'.bytes_eq] at hd
      cases hd
      exact he'.first
  have hmark : bs.foldl Mark.past (m.past b) = m.across [c] := Mark.foldl_past_encoding m he
  have hchar : m.At text before ([c] ++ cs) := h
  have hslice := hchar.slice?_eq
  rw [Scanner.unexpected, skipWhile_eq hbytes hfuel, htake, hmark, Option.bind_eq_bind,
    Option.bind_some, hslice, Option.bind_eq_bind, Option.bind_some, String.toList_ofList]
  rfl

theorem Symbol.toNat_lt_of_ofChar? {s : Symbol} (h : Symbol.ofChar? c = some s) :
    c.toNat < 128 := by
  unfold Symbol.ofChar? at h
  split at h <;> cases h <;> decide

private theorem Encoding.ofChar?_eq (h : Encoding c b bs) :
    Symbol.ofChar? (Char.ofUInt8 b) = Symbol.ofChar? c := by
  rcases Nat.lt_or_ge c.toNat 128 with hc | hc
  · rw [h.ofUInt8_eq hc]
  · have hnone : ∀ d : Char, 128 ≤ d.toNat → Symbol.ofChar? d = none := fun d hd =>
      Option.eq_none_iff_forall_ne_some.mpr fun s hs =>
        absurd (Symbol.toNat_lt_of_ofChar? hs) (Nat.not_lt.mpr hd)
    rw [hnone c hc, hnone (Char.ofUInt8 b) (h.wide hc)]

/-- What starts at a character that is neither a blank nor the start of a comment. -/
theorem Mark.At.scan_eq (h : m.At text before (c :: cs)) (he : Encoding c b bs)
    (hblank : Piece.isBlank c = false) (hc : ¬ ['/', '/'] <+: c :: cs) (fallback : Float) :
    ∃ r, (Piece.first c cs).meaning.Found r ∧
      scan text fallback m.offset b (m.past b) = some (r, m.across (Piece.first c cs).text) := by
  have hquote : Char.ofUInt8 b = '"' ↔ c = '"' := by
    simpa using he.test (singleByte_eq (a := '"') (by decide)) b List.mem_cons_self
  have hdigit : (Char.ofUInt8 b).isDigit = c.isDigit :=
    he.test singleByte_isDigit b List.mem_cons_self
  have hletter : Piece.isLetter (Char.ofUInt8 b) = Piece.isLetter c :=
    he.test singleByte_isLetter b List.mem_cons_self
  simp only [scan, hquote, hdigit, hletter, he.ofChar?_eq]
  split
  · rename_i hc
    subst hc
    rw [he.past_eq (by decide), Piece.first_quote]
    exact h.string_eq
  split
  · rename_i hc
    have hc' := Piece.isDigit_iff.mp hc
    obtain ⟨k, hk, hnumber⟩ := h.number_eq hc fallback
    rw [he.past_eq (by omega), Piece.first_digit hc, hnumber, hk]
    exact ⟨_, .token k, rfl⟩
  split
  · rename_i hc
    have hc' := Piece.isLetter_iff.mp hc
    obtain ⟨k, hk, hword⟩ := h.word_eq
    rw [he.past_eq (by omega), Piece.first_letter hc, hword, hk]
    exact ⟨_, .token k, rfl⟩
  split
  · rename_i s hs
    obtain ⟨k, hk, hsymbol⟩ := h.symbol_eq s
    rw [he.past_eq (Symbol.toNat_lt_of_ofChar? hs), Piece.first_symbol hs hc, hsymbol, hk]
    exact ⟨_, .token k, rfl⟩
  · rename_i hquote hdigit hletter _ hs
    have hslash : ¬ (c = '/' ∧ cs.head? = some '/') := by
      rintro ⟨rfl, -⟩
      cases hs
    have hfirst : Piece.first c cs = ⟨.error (.unexpectedCharacter c), [c]⟩ := by
      rw [Piece.first, if_neg (by simp [hblank]), if_neg hslash, if_neg hquote, if_neg hdigit,
        if_neg hletter, hs]
    rw [hfirst]
    exact ⟨_, .error _, h.unexpected_eq he⟩

/-! ### Blanks and comments -/

/-- What is left of a text after the blanks and comments `ps`. -/
structure Trivia (rest : List Char) (ps : List Piece) (cs : List Char) : Prop where
  blank : ∀ p ∈ ps, p.meaning = .blank
  text : rest = ps.flatMap Piece.text ++ cs
  all : Piece.all rest = ps ++ Piece.all cs
  notBlank : ∀ c ∈ cs.head?, Piece.isBlank c = false
  notComment : ¬ ['/', '/'] <+: cs

theorem Trivia.cons {p : Piece} {ps : List Piece} {ds : List Char} (h : Trivia cs ps ds)
    (hp : p.meaning = .blank) (hall : Piece.all (p.text ++ cs) = p :: Piece.all cs) :
    Trivia (p.text ++ cs) (p :: ps) ds where
  blank := List.forall_mem_cons.mpr ⟨hp, h.blank⟩
  text := by rw [List.flatMap_cons, List.append_assoc, ← h.text]
  all := by rw [hall, h.all, List.cons_append]
  notBlank := h.notBlank
  notComment := h.notComment

/-- Two bytes tell a comment from a division. -/
theorem Mark.At.isComment_iff (h : m.At text before (c :: cs)) (he : Encoding c b bs) :
    (decide (Char.ofUInt8 b = '/') && isAt text (· = '/') (m.offset + 1)) = true ↔
    ['/', '/'] <+: c :: cs := by
  have hslash : decide (Char.ofUInt8 b = '/') = decide (c = '/') :=
    he.test (singleByte_eq (by decide)) b List.mem_cons_self
  rw [hslash, Bool.and_eq_true, decide_eq_true_eq, List.cons_prefix_cons, eq_comm]
  refine and_congr_right fun hc => ?_
  subst hc
  rw [h.isAt_succ (by decide) (singleByte_eq (by decide))]
  cases cs <;> simp [eq_comm]

private theorem Mark.At.skip_comment {body : List Char}
    (h : m.At text before ('/' :: '/' :: body ++ cs)) (hbody : '\n' ∉ body)
    (hcs : ∀ d ∈ cs.head?, d = '\n') :
    skip text (· ≠ '\n') m = some (m.across ('/' :: '/' :: body)) := by
  rw [h.skip_eq (singleByte_ne (a := '\n') (by decide)), takeWhile_until (by simp [hbody]) hcs]

private theorem Mark.At.skipTrivia_eq {n : Nat} (h : m.At text before rest)
    (hn : (bytes rest).length < n) :
    ∃ ps cs, Trivia rest ps cs ∧ skipTrivia text n m = some (m.across (ps.flatMap Piece.text)) := by
  induction n generalizing m before rest with
  | zero => exact absurd hn (Nat.not_lt_zero _)
  | succ n ih =>
    cases rest with
    | nil =>
      refine ⟨[], [], ⟨nofun, rfl, rfl, nofun, by simp⟩, ?_⟩
      rw [skipTrivia, h.byte?_nil]
      rfl
    | cons c cs =>
      obtain ⟨b, bs, he⟩ := exists_encoding c
      have hblank : Piece.isBlank (Char.ofUInt8 b) = Piece.isBlank c :=
        he.test singleByte_isBlank b List.mem_cons_self
      have hcomment := h.isComment_iff he
      rw [skipTrivia, h.byte?_head he]
      simp only [hblank, hcomment]
      split
      · rename_i hc
        have hascii : c.toNat < 128 := by
          obtain rfl | rfl | rfl | rfl := Piece.isBlank_iff.mp hc <;> decide
        have hlen : (bytes cs).length < n := by
          rw [he.bytes_eq, List.length_cons, List.length_append] at hn
          omega
        obtain ⟨ps, ds, htrivia, hskip⟩ := ih h.across_char hlen
        refine ⟨_, ds, htrivia.cons (p := ⟨.blank, [c]⟩) rfl ?_, ?_⟩
        · rw [List.singleton_append, Piece.all_cons, Piece.first_blank hc]
          rfl
        · rw [he.past_eq hascii, hskip, ← Mark.across_append, List.flatMap_cons]
      rename_i hc
      split
      · rename_i hslashes
        obtain ⟨ds, hds⟩ := hslashes
        obtain ⟨rfl, rfl⟩ : c = '/' ∧ cs = '/' :: ds := List.cons_eq_cons.mp hds.symm
        obtain ⟨body, rest, rfl, hbody, hrest⟩ := Piece.exists_comment ds
        rw [← List.cons_append, ← List.cons_append] at h hn
        have hlen : (bytes rest).length < n := by
          have hpos := length_bytes_pos (List.cons_ne_nil '/' ('/' :: body))
          rw [bytes_append, List.length_append] at hn
          omega
        have hmark : (m.across ('/' :: '/' :: body)).At text (before ++ '/' :: '/' :: body) rest :=
          h.across
        obtain ⟨ps, ds, htrivia, hskip⟩ := ih hmark hlen
        refine ⟨_, ds,
          htrivia.cons (p := ⟨.blank, '/' :: '/' :: body⟩) rfl (Piece.all_comment hbody hrest), ?_⟩
        rw [h.skip_comment hbody hrest, Option.bind_eq_bind, Option.bind_some, hskip,
          ← Mark.across_append, List.flatMap_cons]
      · rename_i hslashes
        refine ⟨[], c :: cs, ⟨nofun, rfl, rfl, ?_, hslashes⟩, rfl⟩
        rintro _ ⟨⟩
        simpa using hc

/-! ### A whole text -/

/-- The tokens among the pieces, the first piece standing at `m`, and the mark at the end. -/
def Scanned.ofPieces (m : Mark) : List Piece → List Scanned
  | [] => [⟨⟨.eof, .point m.position⟩, m.offset, m.offset⟩]
  | p :: ps =>
    let m' := m.across p.text
    match p.meaning with
    | .token k => ⟨⟨k, .upTo m.position m'.position⟩, m.offset, m'.offset⟩ :: ofPieces m' ps
    | _ => ofPieces m' ps

namespace Scanned

theorem ofPieces_blank {ps : List Piece} (h : ∀ p ∈ ps, p.meaning = .blank) (m : Mark)
    (qs : List Piece) : ofPieces m (ps ++ qs) = ofPieces (m.across (ps.flatMap Piece.text)) qs := by
  induction ps generalizing m with
  | nil => rfl
  | cons p ps ih =>
    obtain ⟨hp, hps⟩ := List.forall_mem_cons.mp h
    rw [List.cons_append, ofPieces, List.flatMap_cons, Mark.across_append]
    simp only [hp]
    exact ih hps _

theorem map_toToken_ofPieces (m : Mark) (ps : List Piece) :
    (ofPieces m ps).map toToken = (Lexed.ofPieces m.position ps).tokens := by
  induction ps generalizing m with
  | nil => rfl
  | cons p ps ih =>
    have hps := ih (m.across p.text)
    rw [ofPieces, Lexed.ofPieces]
    cases p.meaning with
    | blank | error => exact hps
    | token k => exact congrArg _ hps

end Scanned

theorem Lexed.ofPieces_blank {ps : List Piece} (h : ∀ p ∈ ps, p.meaning = .blank) (p : Position)
    (qs : List Piece) :
    ofPieces p (ps ++ qs) = ofPieces (p.afterAll (ps.flatMap Piece.text)) qs := by
  induction ps generalizing p with
  | nil => rfl
  | cons q ps ih =>
    obtain ⟨hq, hps⟩ := List.forall_mem_cons.mp h
    rw [List.cons_append, ofPieces, List.flatMap_cons, Position.afterAll_append]
    simp only [hq]
    exact ih hps _

variable {f : SourceFile} {fallback : Float}

private theorem Mark.At.lexFrom_eq {n : Nat} (h : m.At f.text before rest)
    (hn : (bytes rest).length < n) (errors : Diagnostics) :
    lexFrom f fallback n m errors = some (Scanned.ofPieces m (Piece.all rest),
      ((Lexed.ofPieces m.position (Piece.all rest)).errors.map (Diagnostic.ofError f)).foldl
        Diagnostics.push
        errors) := by
  -- The fuel counts bytes, and each turn of the loop goes over at least one.
  induction n generalizing m before rest errors with
  | zero => exact absurd hn (Nat.not_lt_zero _)
  | succ n ih =>
    obtain ⟨ps, cs, htrivia, hskip⟩ := h.skipTrivia_eq h.length_lt_fuel
    have hmark := (htrivia.text ▸ h).across
    have hlen : (bytes cs).length ≤ (bytes rest).length := by
      rw [htrivia.text, bytes_append, List.length_append]
      omega
    rw [lexFrom, hskip, Option.bind_eq_bind, Option.bind_some, htrivia.all,
      Scanned.ofPieces_blank htrivia.blank, Lexed.ofPieces_blank htrivia.blank]
    change _ =
        some (_,
          ((Lexed.ofPieces (m.across (ps.flatMap Piece.text)).position _).errors.map _).foldl _ _)
    generalize m.across (ps.flatMap Piece.text) = m at hmark
    cases cs with
    | nil => rw [hmark.byte?_nil]; rfl
    | cons c cs =>
      obtain ⟨b, bs, he⟩ := exists_encoding c
      have hblank := htrivia.notBlank c rfl
      obtain ⟨r, hr, hscan⟩ := hmark.scan_eq he hblank htrivia.notComment fallback
      obtain ⟨ds, hds⟩ := Piece.first_prefix c cs
      have hpos := length_bytes_pos (List.ne_nil_of_length_pos (Piece.first_proper c cs).1)
      have hnext : (m.across (Piece.first c cs).text).At f.text _ ds :=
        Mark.At.across (hds.symm ▸ hmark)
      have hshort : (bytes ds).length < n := by
        rw [← hds, bytes_append, List.length_append] at hlen
        omega
      have hdrop : (c :: cs).drop (Piece.first c cs).text.length = ds := by
        rw [← hds, List.drop_left]
      rw [hmark.byte?_head he, Piece.all_cons, hdrop, Scanned.ofPieces, Lexed.ofPieces]
      simp only [hscan, Option.bind_eq_bind, Option.bind_some]
      generalize (Piece.first c cs).meaning = meaning at hr
      cases hr with
      | token k =>
        simp only [ih hnext hshort, Option.bind_some]
        rfl
      | error e =>
        simp only [ih hnext hshort, List.map_cons, List.foldl_cons]
        rfl

/-- The byte scanner comes to the end of every text, and finds the tokens and the
errors of its pieces. -/
theorem Scanner.lex_eq (f : SourceFile) (fallback : Float) :
    lex f fallback =
      some (Scanned.ofPieces .start (Piece.all f.text.toList),
        .ofErrors f (Lexed.ofText f.text).errors) :=
  (Mark.At.start f.text).lexFrom_eq (Mark.At.start f.text).length_lt_fuel .empty

end Lox
