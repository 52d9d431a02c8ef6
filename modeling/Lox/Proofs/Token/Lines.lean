import Mathlib.Data.List.DropRight
import Lox.Token.Lines
import Lox.Proofs.Token.Bytes
/-!
# Lines

A text is its lines, one after the other, with a line feed after each but the last. So the line on
which a character stands is what was read since the last line feed before it and what comes up to
the next one. The offsets that are found in the bytes of a text cut it into the same lines.
-/

namespace Lox

/-! ### Line by line -/

section

variable {l cs : List Char}

/-- Over a text line by line: its last line, and a line with others after it. -/
@[elab_as_elim]
theorem lines_induction {motive : List Char → Prop} (last : ∀ l, '\n' ∉ l → motive l)
    (line : ∀ l cs, '\n' ∉ l → motive cs → motive (l ++ '\n' :: cs)) (cs : List Char) :
    motive cs := by
  induction hn : cs.count '\n' generalizing cs with
  | zero => exact last cs (List.count_eq_zero.mp hn)
  | succ n ih =>
    have hmem : '\n' ∈ cs := List.count_pos_iff.mp (hn ▸ Nat.succ_pos n)
    obtain ⟨l, cs, rfl, hl⟩ := List.eq_append_cons_of_mem hmem
    rw [List.count_append, List.count_cons_self, List.count_eq_zero.mpr hl, Nat.zero_add] at hn
    exact line l cs hl (ih cs (Nat.succ.inj hn))

theorem takeWhile_last (hl : '\n' ∉ l) : l.takeWhile (· ≠ '\n') = l :=
  List.takeWhile_eq_self_iff.mpr fun c hc => by simpa using ne_of_mem_of_not_mem hc hl

theorem splitLines_last (hl : '\n' ∉ l) : splitLines l = [l] := by
  induction l with
  | nil => rfl
  | cons c l ih =>
    obtain ⟨hc, hl⟩ := not_or.mp (List.mem_cons.not.mp hl)
    rw [splitLines, if_neg (Ne.symm hc), ih hl]

theorem splitLines_line (hl : '\n' ∉ l) (cs : List Char) :
    splitLines (l ++ '\n' :: cs) = l :: splitLines cs := by
  induction l with
  | nil => rfl
  | cons c l ih =>
    obtain ⟨hc, hl⟩ := not_or.mp (List.mem_cons.not.mp hl)
    rw [List.cons_append, splitLines, if_neg (Ne.symm hc), ih hl]

/-- What of a text comes after its last line feed. -/
def lastLine (cs : List Char) : List Char := cs.rtakeWhile (· ≠ '\n')

theorem lastLine_concat (cs : List Char) (c : Char) :
    lastLine (cs ++ [c]) = if c = '\n' then [] else lastLine cs ++ [c] := by
  simp [lastLine, List.rtakeWhile_concat]

private theorem lastLine_last (hl : '\n' ∉ l) : lastLine l = l :=
  List.rtakeWhile_eq_self_iff.mpr fun c hc => by simpa using ne_of_mem_of_not_mem hc hl

private theorem lastLine_line (l cs : List Char) : lastLine (l ++ '\n' :: cs) = lastLine cs := by
  induction cs using List.reverseRecOn with
  | nil => rw [lastLine_concat, if_pos rfl]; rfl
  | append_singleton cs c ih =>
    rw [← List.cons_append, ← List.append_assoc, lastLine_concat, lastLine_concat, ih]

theorem lastLine_append (cs : List Char) (hl : '\n' ∉ l) :
    lastLine (cs ++ l) = lastLine cs ++ l := by
  induction l using List.reverseRecOn with
  | nil => simp
  | append_singleton l c ih =>
    obtain ⟨hl, hc⟩ := not_or.mp (List.mem_append.not.mp hl)
    rw [← List.append_assoc, lastLine_concat, if_neg (Ne.symm (List.mem_singleton.not.mp hc)),
      ih hl, List.append_assoc]

/-- The line on which the text `rest` starts. -/
theorem getElem?_splitLines (cs rest : List Char) :
    (splitLines (cs ++ rest))[cs.count '\n']? =
      some (lastLine cs ++ rest.takeWhile (· ≠ '\n')) := by
  induction cs using lines_induction with
  | last l hl =>
    rw [lastLine_last hl, List.count_eq_zero.mpr hl]
    by_cases hmem : '\n' ∈ rest
    · obtain ⟨v, ds, rfl, hv⟩ := List.eq_append_cons_of_mem hmem
      have htake : (v ++ '\n' :: ds).takeWhile (· ≠ '\n') = v := takeWhile_until hv (by simp)
      rw [htake, ← List.append_assoc, splitLines_line (List.not_mem_append hl hv)]
      rfl
    · rw [takeWhile_last hmem, splitLines_last (List.not_mem_append hl hmem)]
      rfl
  | line l cs hl ih =>
    rw [lastLine_line, List.append_assoc, List.cons_append, splitLines_line hl, List.count_append,
      List.count_cons_self, List.count_eq_zero.mpr hl, Nat.zero_add, List.getElem?_cons_succ]
    exact ih

private theorem not_mem_of_mem_splitLines (hl : l ∈ splitLines cs) : '\n' ∉ l := by
  induction cs using lines_induction with
  | last v hv =>
    rw [splitLines_last hv, List.mem_singleton] at hl
    rwa [hl]
  | line v cs hv ih =>
    rw [splitLines_line hv] at hl
    obtain rfl | hl := List.mem_cons.mp hl
    · exact hv
    · exact ih hl

theorem SourceFile.not_mem_of_line? {f : SourceFile} {n : Nat} {s : String}
    (h : f.line? n = some s) : '\n' ∉ s.toList := by
  rw [line?] at h
  split at h
  · cases h
  · obtain ⟨l, hl, rfl⟩ := Option.map_eq_some_iff.mp h
    have hmem := not_mem_of_mem_splitLines (List.mem_of_getElem? hl)
    rw [String.toList_ofList]
    exact fun hn => hmem ((List.rdropWhile_prefix _ l).subset hn)

/-- Only the carriage returns at the very end of a line are dropped. -/
theorem dropReturns_append {c : Char} (hc : c ≠ '\r') (v cs : List Char) :
    dropReturns (v ++ [c] ++ cs) = v ++ [c] ++ dropReturns cs := by
  change List.rdropWhile _ _ = _ ++ List.rdropWhile _ _
  induction cs using List.reverseRecOn with
  | nil => simp [hc]
  | append_singleton cs d ih =>
    rw [← List.append_assoc, List.rdropWhile_concat, List.rdropWhile_concat, ih]
    split
    · rfl
    · rw [List.append_assoc]

end

/-! ### Lines by offsets -/

section

variable {text : String} {before rest cs l w : List Char} {m : Mark}

theorem lineFeeds_add (text : String) (offset a b : Nat) :
    lineFeeds text offset (a + b) = lineFeeds text offset a ++ lineFeeds text (offset + a) b := by
  rw [lineFeeds, lineFeeds, lineFeeds, ← List.filter_append, List.range'_append_1]

namespace Mark.At

theorem lineFeeds_of_not_mem (h : m.At text before (w ++ rest)) (hw : '\n' ∉ w) :
    lineFeeds text m.offset (bytes w).length = [] := by
  have hbytes := takeWhile_bytes (singleByte_ne (a := '\n') (by decide)) w
  rw [takeWhile_last hw, List.takeWhile_eq_self_iff] at hbytes
  refine List.filter_eq_nil_iff.mpr fun i hi => ?_
  obtain ⟨hle, hlt⟩ := List.mem_range'_1.mp hi
  obtain ⟨j, rfl⟩ := Nat.exists_eq_add_of_le hle
  have hj : j < (bytes w).length := Nat.lt_of_add_lt_add_left hlt
  have hbyte := h.byte?_add j
  rw [bytes_append, List.getElem?_append_left hj, List.getElem?_eq_getElem hj] at hbyte
  rw [Scanner.isAt, hbyte]
  simpa using hbytes _ (List.getElem_mem hj)

/-- Past a line and the line feed after it. -/
theorem across_line (h : m.At text before (l ++ '\n' :: cs)) :
    (m.across (l ++ ['\n'])).At text (before ++ (l ++ ['\n'])) cs := by
  refine Mark.At.across ?_
  rwa [List.append_assoc]

theorem lineFeeds_line (h : m.At text before (l ++ '\n' :: cs)) (hl : '\n' ∉ l) :
    lineFeeds text m.offset (bytes (l ++ '\n' :: cs)).length =
      (m.across l).offset :: lineFeeds text (m.across (l ++ ['\n'])).offset (bytes cs).length := by
  have hlength : (bytes (l ++ '\n' :: cs)).length = (bytes l).length + (1 + (bytes cs).length) := by
    rw [bytes_append, bytes_cons, List.length_append, List.length_append]
    rfl
  have hfeed : lineFeeds text (m.across l).offset 1 = [(m.across l).offset] := by
    rw [lineFeeds, List.range'_one, List.filter_cons, h.across.isAt_eq (singleByte_eq (by decide))]
    rfl
  have hnext : (m.across (l ++ ['\n'])).offset = (m.across l).offset + 1 := by
    rw [Mark.across_append]
    rfl
  rw [hlength, lineFeeds_add, lineFeeds_add, h.lineFeeds_of_not_mem hl, List.nil_append, hnext]
  exact congrArg (· ++ _) hfeed

private theorem length_lineFeeds (h : m.At text before cs) :
    (lineFeeds text m.offset (bytes cs).length).length + 1 = (splitLines cs).length := by
  induction cs using lines_induction generalizing m before with
  | last l hl =>
    rw [← List.append_nil l] at h
    rw [h.lineFeeds_of_not_mem hl, splitLines_last hl]
    rfl
  | line l cs hl ih =>
    rw [h.lineFeeds_line hl, splitLines_line hl, List.length_cons, List.length_cons,
      ih h.across_line]

/-- The lines from a mark on are cut out of the text where they start. -/
theorem cutLine?_eq (h : m.At text before cs) (i : Nat) :
    cutLine? text (m.offset :: (lineFeeds text m.offset (bytes cs).length).map (· + 1)) i =
      some ((splitLines cs)[i]?.map fun l => String.ofList (dropReturns l)) := by
  induction cs using lines_induction generalizing m before i with
  | last l hl =>
    have hl' : m.At text before (l ++ []) := by rwa [List.append_nil]
    rw [hl'.lineFeeds_of_not_mem hl, splitLines_last hl]
    cases i with
    | zero =>
      have hsize : text.utf8ByteSize = (m.across l).offset := by
        rw [hl'.across.offset_eq, ← h.text_eq, length_bytes, String.utf8Len_toList]
      change (Scanner.slice? text m.offset text.utf8ByteSize).map _ = _
      rw [hsize, hl'.slice?_eq, Option.map_some, String.toList_ofList]
      rfl
    | succ i => rfl
  | line l cs hl ih =>
    rw [h.lineFeeds_line hl, splitLines_line hl, List.map_cons]
    cases i with
    | zero =>
      change (Scanner.slice? text m.offset (m.across l).offset).map _ = _
      rw [h.slice?_eq, Option.map_some, String.toList_ofList]
      rfl
    | succ i =>
      have hstart : (m.across l).offset + 1 = (m.across (l ++ ['\n'])).offset := by
        rw [Mark.across_append]
        rfl
      rw [hstart, List.getElem?_cons_succ]
      exact ih h.across_line i

end Mark.At

namespace SourceFile

theorem length_lineStarts (f : SourceFile) : f.lineStarts.length = f.lineCount := by
  have hlength := (Mark.At.start f.text).length_lineFeeds
  rw [length_bytes, String.utf8Len_toList] at hlength
  rw [lineStarts, List.length_cons, List.length_map]
  exact hlength

/-- Cutting lines out by offsets never falls into a character, and gives what is
between the line feeds. -/
theorem lineAt?_eq (f : SourceFile) (n : Nat) : f.lineAt? n = some (f.line? n) := by
  rw [lineAt?, line?]
  split
  · rfl
  · have hline := (Mark.At.start f.text).cutLine?_eq (n - 1)
    rwa [length_bytes, String.utf8Len_toList] at hline

end SourceFile

end

end Lox
