import Lox.Proofs.Token.Accounting
import Lox.Proofs.Token.Lines
/-!
# Positions and lines agree

Where the byte scanner has a token begin and end is what one counts in the text: the line
feeds before a character, and the characters since the last of them. A token on one line is
found in that line of the file between its two columns, and a report on it has a caret under
each of its characters.
-/

namespace Lox

/-! ### Counting -/

/-- The position of what comes after `before`, counted: the line is one plus the number of line
feeds, and the column is one plus the number of characters since the last one. -/
def Position.counted (before : List Char) : Position where
  line := before.count '\n' + 1
  column := (lastLine before).length + 1

namespace Position

theorem line_counted (cs : List Char) : (counted cs).line = cs.count '\n' + 1 := rfl

theorem column_counted (cs : List Char) : (counted cs).column = (lastLine cs).length + 1 := rfl

theorem counted_concat (cs : List Char) (c : Char) :
    counted (cs ++ [c]) = (counted cs).after c := by
  rw [counted, counted, after, lastLine_concat, List.count_append]
  by_cases hc : c = '\n'
  · subst hc
    rfl
  · rw [List.count_singleton, if_neg hc, if_neg hc, if_neg (beq_iff_eq.not.mpr hc),
      List.length_append]
    rfl

/-- Going on character by character comes to the position that counting gives. -/
theorem start_afterAll (cs : List Char) : start.afterAll cs = counted cs := by
  induction cs using List.reverseRecOn with
  | nil => rfl
  | append_singleton cs c ih =>
    rw [afterAll_append, ih, counted_concat, afterAll_cons, afterAll_nil]

/-- A position is on a line that the text has, and at most one column past it. -/
theorem counted_bounds {before text : List Char} (h : before <+: text) :
    ∃ l, (splitLines text)[(counted before).line - 1]? = some l ∧
    (counted before).column ≤ l.length + 1 := by
  obtain ⟨rest, rfl⟩ := h
  refine ⟨_, getElem?_splitLines before rest, ?_⟩
  rw [column_counted, List.length_append]
  omega

end Position

/-- A span whose last character does not end a line ends where that character stands. -/
theorem Span.upTo_counted {c : Char} (hc : c ≠ '\n') (p : Position) (cs : List Char) :
    upTo p (.counted (cs ++ [c])) = ⟨p, .counted cs⟩ := by
  rw [Position.counted_concat, Position.after, if_neg hc, upTo, Nat.add_sub_cancel]
  exact congrArg (fun n => Span.mk p ⟨_, n⟩) (Nat.max_eq_left (Nat.le_add_left 1 _))

/-! ### Where tokens stand -/

variable {text : String} {before cs w after pre post : List Char} {m : Mark} {k : TokenKind}
  {ps : List Piece}

/-- A token ends with a character that is seen. -/
theorem Lexeme.last_not_blank (h : Lexeme w k) : ∀ c ∈ w.getLast?, Piece.isBlank c = false := by
  have hall {v : List Char} (hv : ∀ d ∈ v, Piece.isBlank d = false) :
      ∀ c ∈ v.getLast?, Piece.isBlank c = false :=
    fun c hc => hv c (List.mem_of_getLast? hc)
  have hword {d : Char} (hd : Piece.isLetterOrDigit d = true) : Piece.isBlank d = false :=
    (Piece.plain_of_isLetterOrDigit hd).1
  have hletter {d : Char} (hd : Piece.isLetter d = true) : Piece.isBlank d = false :=
    hword (Piece.isLetterOrDigit_iff.mpr (.inl hd))
  have hdigit {d : Char} (hd : d.isDigit = true) : Piece.isBlank d = false :=
    hword (Piece.isLetterOrDigit_iff.mpr (.inr hd))
  cases h with
  | symbol s =>
    obtain ⟨d, t, ht, ⟨hs, -⟩ | ⟨hs, -⟩⟩ := s.text_forms
    · rw [hs]
      exact hall (List.forall_mem_singleton.mpr (Piece.plain_of_ofChar? ht).1)
    · rw [hs]
      exact hall (List.forall_mem_cons.mpr ⟨(Piece.plain_of_ofChar? ht).1,
        List.forall_mem_singleton.mpr rfl⟩)
  | keyword w =>
    obtain ⟨d, ds, hw, hd, hds⟩ := keyword_letters w
    rw [hw]
    exact hall (List.forall_mem_cons.mpr ⟨hletter hd, fun d hd => hword (hds d hd)⟩)
  | identifier hd hds =>
    exact hall (List.forall_mem_cons.mpr ⟨hletter hd, fun d hd => hword (hds d hd)⟩)
  | @string cs =>
    rw [← List.cons_append, List.getLast?_concat]
    rintro _ ⟨⟩
    rfl
  | whole _ hds => exact hall fun d hd => hdigit (hds d hd)
  | fraction _ hds _ hfs =>
    refine hall (List.forall_mem_append.mpr ⟨fun d hd => hdigit (hds d hd), ?_⟩)
    exact List.forall_mem_cons.mpr ⟨rfl, fun d hd => hdigit (hfs d hd)⟩

theorem Lexeme.exists_concat (h : Lexeme w k) : ∃ v c, w = v ++ [c] ∧ c ≠ '\n' ∧ c ≠ '\r' := by
  obtain hnil | ⟨v, c, rfl⟩ := List.eq_nil_or_concat w
  · exact absurd hnil h.ne_nil
  · have hc := h.last_not_blank c (by simp)
    refine ⟨v, c, by simp, ?_, ?_⟩
    all_goals
      rintro rfl
      cases hc

/-- The token is the stretch `w` of the text, from the offset and the position of its first
character to those of its last. -/
structure Scanned.Stands (text : String) (t : Scanned) (before w after : List Char) : Prop where
  text_eq : text.toList = before ++ w ++ after
  first_offset : t.first = (bytes before).length
  stop_offset : t.stop = (bytes (before ++ w)).length
  longest : Lexeme.Longest w t.kind (w ++ after)
  first : t.span.first = .counted before
  last : t.span.last = .counted (before ++ w.dropLast)

theorem Mark.position_start_across (cs : List Char) :
    (Mark.start.across cs).position = .counted cs :=
  Position.start_afterAll cs

private theorem Mark.At.start_across (h : text.toList = before ++ cs) :
    (Mark.start.across before).At text before cs := by
  have hstart := Mark.At.start text
  rw [h] at hstart
  exact hstart.across

theorem Lexeme.Longest.stands (hw : Longest w k (w ++ after))
    (htext : text.toList = before ++ (w ++ after)) :
    Scanned.Stands text
      ⟨⟨k, .upTo (Mark.start.across before).position (Mark.start.across (before ++ w)).position⟩,
        (Mark.start.across before).offset,
        (Mark.start.across (before ++ w)).offset⟩ before w after := by
  obtain ⟨v, c, rfl, hc, -⟩ := hw.lexeme.exists_concat
  have hmark := Mark.At.start_across htext
  have hspan :
      Span.upTo (Mark.start.across before).position
        (Mark.start.across (before ++ (v ++ [c]))).position =
      ⟨.counted before, .counted (before ++ v)⟩ := by
    rw [Mark.position_start_across, Mark.position_start_across, ← List.append_assoc,
      Span.upTo_counted hc]
  rw [hspan]
  refine ⟨by rw [htext, List.append_assoc before], hmark.offset_eq, ?_, hw, rfl, by
    rw [List.dropLast_concat]⟩
  rw [Mark.across_append]
  exact hmark.across.offset_eq

/-- The tokens that are found after `before` stand where their spans say. -/
theorem Piece.Accounts.stands (h : Piece.Accounts cs ps) (htext : text.toList = before ++ cs) :
    ∃ ts e, Scanned.ofPieces (Mark.start.across before) ps = ts ++ [e] ∧
      e.toToken = ⟨.eof, .point (.counted text.toList)⟩ ∧
      ∀ t ∈ ts, t.kind ≠ .eof ∧ ∃ before w after, t.Stands text before w after := by
  induction h generalizing before with
  | nil =>
    rw [List.append_nil] at htext
    refine ⟨[], _, rfl, ?_, nofun⟩
    rw [htext, ← Mark.position_start_across]
  | @blank c cs _ _ _ ih | @unexpected c cs _ _ _ _ _ ih =>
    rw [← List.singleton_append, ← List.append_assoc] at htext
    have hrest := ih htext
    rwa [Mark.across_append] at hrest
  | comment _ _ _ ih =>
    rw [← List.append_assoc] at htext
    have hrest := ih htext
    rwa [Mark.across_append] at hrest
  | unterminated =>
    refine ⟨[], _, rfl, ?_, nofun⟩
    rw [htext, ← Mark.position_start_across, Mark.across_append]
  | @token w k cs ps hw _ _ ih =>
    have htext' := htext
    rw [← List.append_assoc] at htext'
    obtain ⟨ts, e, hts, he, hstands⟩ := ih htext'
    refine ⟨_ :: ts, e, ?_, he,
      List.forall_mem_cons.mpr ⟨⟨hw.lexeme.not_eof, before, w, cs, hw.stands htext⟩, hstands⟩⟩
    rw [List.cons_append, ← hts, Scanned.ofPieces, Mark.across_append]

/-! ### Tokens on one line -/

private theorem Scanned.Stands.not_mem {t : Scanned} (h : t.Stands text before w after)
    (hline : t.span.first.line = t.span.last.line) : '\n' ∉ w := by
  obtain ⟨v, c, rfl, hc, -⟩ := h.longest.lexeme.exists_concat
  rw [h.first, h.last, List.dropLast_concat] at hline
  rw [Position.line_counted, Position.line_counted, List.count_append] at hline
  have hv : '\n' ∉ v := List.count_eq_zero.mp (by omega)
  exact List.not_mem_append hv (List.mem_singleton.not.mpr (Ne.symm hc))

theorem Scanned.Stands.line? {f : SourceFile} {t : Scanned} (h : t.Stands f.text before w after)
    (hw : '\n' ∉ w) :
    f.line? t.span.first.line =
      some (String.ofList (lastLine before ++ w ++ dropReturns (after.takeWhile (· ≠ '\n')))) := by
  have htake : (w ++ after).takeWhile (· ≠ '\n') = w ++ after.takeWhile (· ≠ '\n') :=
    List.takeWhile_append_of_pos fun c hc => by simpa using ne_of_mem_of_not_mem hc hw
  have hline := getElem?_splitLines before (w ++ after)
  rw [← List.append_assoc, ← h.text_eq, htake] at hline
  obtain ⟨v, c, rfl, -, hc⟩ := h.longest.lexeme.exists_concat
  rw [h.first, Position.line_counted, SourceFile.line?, if_neg (Nat.succ_ne_zero _),
    Nat.add_sub_cancel, SourceFile.lines, hline, Option.map_some, ← List.append_assoc,
    ← List.append_assoc, dropReturns_append hc, List.append_assoc (lastLine before)]

private theorem toList_pushn (s : String) (c : Char) (n : Nat) :
    (s.pushn c n).toList = s.toList ++ List.replicate n c := by
  induction n with
  | zero => exact (List.append_nil _).symm
  | succ n ih =>
    change ((s.pushn c n).push c).toList = _
    rw [String.toList_push, ih, List.replicate_succ', List.append_assoc]

private theorem isDigit_of_mem_toString {n : Nat} {c : Char} (h : c ∈ (toString n).toList) :
    c.isDigit = true := by
  change c ∈ n.repr.toList at h
  rw [Nat.toList_repr] at h
  exact Nat.isDigit_of_mem_toDigits (by decide) (by decide) h

/-- The report ends with a source line and, under its stretch `w`, a caret for each
character and no other. -/
def Diagnostic.Underlines (d : Diagnostic) (pre w post : List Char) : Prop :=
  ∃ head margin gutter, '\n' ∉ margin ∧ gutter.length = margin.length ∧
  (∀ c ∈ gutter, c = ' ' ∨ c = '|') ∧
    d.render.toList = head ++ '\n' :: (margin ++ pre ++ w ++ post) ++
      '\n' :: (gutter ++ List.replicate pre.length ' ' ++ List.replicate w.length '^')

/-- A report ends with the source line, and the line under it. -/
theorem Diagnostic.toList_render (d : Diagnostic) :
    ∃ head, d.render.toList =
      head ++ '\n' ::
      ((toString d.span.first.line).toList ++ " | ".toList ++ d.sourceLine.toList) ++
        '\n' :: (List.replicate (toString d.span.first.line).length ' ' ++ " | ".toList ++
          List.replicate (d.span.first.column - 1) ' ' ++ List.replicate d.caretCount '^') := by
  let gutter := "".pushn ' ' (toString d.span.first.line).length
  let place := s!"{gutter}--> {d.file}:{d.span.text}\n"
  refine ⟨(s!"error[{d.code.text}]: {d.message}\n" ++ place ++ s!"{gutter} |").toList, ?_⟩
  simp only [render, place, gutter, String.toList_append, toList_pushn, toString]
  simp [List.append_assoc]

private theorem Diagnostic.underlines {d : Diagnostic}
    (hline : d.sourceLine.toList = pre ++ w ++ post) (hone : d.span.last.line = d.span.first.line)
    (hfirst : d.span.first.column = pre.length + 1)
    (hlast : d.span.last.column = pre.length + w.length) (hw : w ≠ []) :
    d.Underlines pre w post := by
  have hpos := List.length_pos_of_ne_nil hw
  have hcarets : d.caretCount = w.length := by
    rw [caretCount, if_pos hone]
    omega
  have hpadding : d.span.first.column - 1 = pre.length := by omega
  have hnumber : '\n' ∉ (toString d.span.first.line).toList := fun hn =>
    absurd (isDigit_of_mem_toString hn) (by decide)
  obtain ⟨head, hrender⟩ := d.toList_render
  rw [hline, hcarets, hpadding, List.append_assoc pre, ← List.append_assoc _ pre,
    ← List.append_assoc _ w] at hrender
  refine ⟨head, _, _, List.not_mem_append hnumber (by decide), ?_, fun c hc => ?_, hrender⟩
  · rw [List.length_append, List.length_replicate, List.length_append, String.length_toList,
      String.length_toList]
  · have hbar : ∀ c ∈ " | ".toList, c = ' ' ∨ c = '|' := by simp
    exact (List.mem_append.mp hc).elim (fun hc => .inl (List.eq_of_mem_replicate hc)) (hbar c)

example : (Diagnostic.inFile ⟨"main", "x =\t\"é\" + y;\r\n"⟩ ⟨103⟩ "No." ⟨⟨1, 5⟩, ⟨1, 7⟩⟩).render =
    "error[E103]: No.\n --> main:1:5\n  |\n1 | x =\t\"é\" + y;\n  |     ^^^" := by
  decide +kernel

/-- Found in its line of the file, from the column of its first character to that of its last. -/
structure Token.OnLine (f : SourceFile) (t : Token) (pre w post : List Char) : Prop where
  line : f.lineAt? t.span.first.line = some (some (String.ofList (pre ++ w ++ post)))
  one : '\n' ∉ pre ++ w ++ post
  first_column : t.span.first.column = pre.length + 1
  last_column : t.span.last.column = pre.length + w.length
  underlined : ∀ code message, (Diagnostic.inFile f code message t.span).Underlines pre w post

private theorem Scanned.Stands.onLine {f : SourceFile} {t : Scanned}
    (h : t.Stands f.text before w after) (hone : t.span.first.line = t.span.last.line) :
    t.OnLine f (lastLine before) w (dropReturns (after.takeWhile (· ≠ '\n'))) := by
  have hw := h.not_mem hone
  have hline := h.line? hw
  have hfirst : t.span.first.column = (lastLine before).length + 1 := by
    rw [h.first, Position.column_counted]
  have hlast : t.span.last.column = (lastLine before).length + w.length := by
    obtain ⟨v, c, rfl, -⟩ := h.longest.lexeme.exists_concat
    have hv : '\n' ∉ v := fun hv => hw (List.mem_append_left _ hv)
    rw [h.last, Position.column_counted, List.dropLast_concat, lastLine_append _ hv,
      List.length_append, List.length_append, List.length_singleton]
    omega
  have hnone := SourceFile.not_mem_of_line? hline
  rw [String.toList_ofList] at hnone
  refine ⟨by rw [SourceFile.lineAt?_eq, hline], hnone, hfirst, hlast, fun code message => ?_⟩
  refine Diagnostic.underlines ?_ hone.symm hfirst hlast h.longest.lexeme.ne_nil
  have hsource : (Diagnostic.inFile f code message t.span).sourceLine = _ :=
    congrArg (Option.getD · "") hline
  rw [hsource, Option.getD_some, String.toList_ofList]

/-- Whatever a number without a value would be taken for, the byte scanner returns tokens whose
spans run from the position of the first character to that of the last, and the mark at the end is
on the last line of the file. A token on one line is what its line has between its two columns, and
a report on it has a caret under each of its characters and no other. All that is counted is on a
line of the file and at most one column past it, so that counters of 32 bits count the same in a
file with fewer than `2 ^ 32` lines and columns. -/
theorem Scanner.lex_positions (f : SourceFile) (fallback : Float) :
    (∃ ts e errors, lex f fallback = some (ts ++ [e], errors) ∧
      (ts ++ [e]).map Scanned.toToken = (Lexed.ofText f.text).tokens ∧
      (e.toToken = ⟨.eof, .point (.counted f.text.toList)⟩ ∧
        e.span.first.line = f.lineStarts.length ∧
        ∃ l, f.lineAt? e.span.first.line = some (some l)) ∧
      ∀ t ∈ ts, t.kind ≠ .eof ∧ ∃ before w after, t.Stands f.text before w after ∧
        (t.span.first.line = t.span.last.line → ∃ pre post, t.OnLine f pre w post)) ∧
    ∀ before, before <+: f.text.toList → ∃ l,
      (splitLines f.text.toList)[(Position.counted before).line - 1]? = some l ∧
        (Position.counted before).column ≤ l.length + 1 := by
  refine ⟨?_, fun _ => Position.counted_bounds⟩
  obtain ⟨ts, e, hts, he, hstands⟩ :=
    (Piece.accounts_all f.text.toList).stands (List.nil_append _).symm
  have hspan : e.span = .point (.counted f.text.toList) := congrArg Token.span he
  have hlast : e.span.first.line = f.lineCount := by
    rw [hspan, SourceFile.lineCount, SourceFile.lines, length_splitLines]
    rfl
  obtain ⟨l, hl⟩ : ∃ l, f.line? e.span.first.line = some l := by
    rw [hspan]
    exact f.line?_of_inText ⟨f.text.toList, List.prefix_refl _, (Position.start_afterAll _).symm⟩
  refine ⟨ts, e, _, hts ▸ lex_eq f fallback, hts ▸ Scanned.map_toToken_ofPieces _ _,
    ⟨he, by rw [hlast, f.length_lineStarts], l, by rw [f.lineAt?_eq, hl]⟩, fun t ht => ?_⟩
  obtain ⟨hkind, before, w, after, htoken⟩ := hstands t ht
  exact ⟨hkind, before, w, after, htoken, fun hone => ⟨_, _, htoken.onLine hone⟩⟩

/-- A character of two bytes in a line that ends with a carriage return, and a
string on two lines. -/
def mixedFile : SourceFile := ⟨"mixed.lox", "print \"é\";\r\n\"a\nb\";"⟩

theorem Scanner.lex_positions_mixed :
    ∃ ts e errors, lex mixedFile 0 = some (ts ++ [e], errors) ∧
      (∃ t ∈ ts, t.span = ⟨⟨1, 7⟩, ⟨1, 9⟩⟩ ∧
        t.OnLine mixedFile "print ".toList "\"é\"".toList ";".toList) ∧
      (∃ t ∈ ts, t.span = ⟨⟨2, 1⟩, ⟨3, 2⟩⟩) ∧ e.span = .point ⟨3, 4⟩ := by
  obtain ⟨⟨ts, e, errors, hlex, htokens, -, hstands⟩, -⟩ := lex_positions mixedFile 0
  have hspans : ts.map (·.span) ++ [e.span] =
      [⟨⟨1, 1⟩, ⟨1, 5⟩⟩, ⟨⟨1, 7⟩, ⟨1, 9⟩⟩, .point ⟨1, 10⟩, ⟨⟨2, 1⟩, ⟨3, 2⟩⟩,
        .point ⟨3, 3⟩] ++ [.point ⟨3, 4⟩] := by
    have hall : (ts ++ [e]).map (·.span) = (Lexed.ofText mixedFile.text).tokens.map Token.span := by
      rw [← htokens, List.map_map]
      rfl
    rw [List.map_append] at hall
    exact hall.trans (by decide +kernel)
  obtain ⟨hts, he⟩ := List.append_inj' hspans rfl
  have hmem : ∀ s ∈ ts.map (·.span), ∃ t ∈ ts, t.span = s := fun s hs => List.mem_map.mp hs
  rw [hts] at hmem
  obtain ⟨t, ht, hspan⟩ := hmem ⟨⟨1, 7⟩, ⟨1, 9⟩⟩ (by decide)
  obtain ⟨-, before, w, after, -, hone⟩ := hstands t ht
  obtain ⟨pre, post, hline⟩ := hone (by rw [hspan])
  refine ⟨ts, e, errors, hlex, ⟨t, ht, hspan, ?_⟩, hmem _ (by decide), List.singleton_inj.mp he⟩
  have hpre : pre.length = 6 := by
    have hfirst : 7 = pre.length + 1 := by rw [← hline.first_column, hspan]
    omega
  have hw : w.length = 3 := by
    have hlast : 9 = pre.length + w.length := by rw [← hline.last_column, hspan]
    omega
  have hchars : pre ++ w ++ post = "print ".toList ++ "\"é\"".toList ++ ";".toList := by
    have hcut : mixedFile.lineAt? 1 = some (some "print \"é\";") := by decide +kernel
    have heq := hline.line
    rw [hspan, hcut, Option.some_inj, Option.some_inj] at heq
    rw [← String.toList_ofList (l := pre ++ w ++ post), ← heq]
    rfl
  obtain ⟨hfront, rfl⟩ := List.append_inj hchars (by rw [List.length_append, hpre, hw]; rfl)
  obtain ⟨rfl, rfl⟩ := List.append_inj hfront hpre
  exact hline

end Lox
