import Lox.Proofs.Running.Restriction
import Lox.Proofs.Running.Unwinding
import Lox.Session.Basic
/-!
# The limit on output

A program whose output has not room enough stops at the statement that prints too much, with
what fits printed and all else as it was there. A program that has room enough does not notice
that there is a limit.
-/

namespace Lox

namespace Output

variable {o p : Output} {s : String} {b : Nat}

theorem Begins.size_le (h : o.Begins p) : o.written.size ≤ p.written.size := by
  obtain ⟨bytes, h⟩ := h
  rw [h, ByteArray.size_append]
  exact Nat.le_add_right _ _

theorem extract_zero_of_size_le {bytes : ByteArray} {n : Nat} (h : bytes.size ≤ n) :
    bytes.extract 0 n = bytes := by
  have hempty : bytes.extract bytes.size n = .empty := by
    rw [← ByteArray.size_eq_zero_iff, ByteArray.size_extract]
    omega
  rw [ByteArray.extract_eq_extract_append_extract bytes.size (Nat.zero_le _) h, hempty,
    ByteArray.append_empty, ByteArray.extract_zero_size]

/-- What comes first in the output is also there as long as more is printed. -/
theorem Begins.extract_eq (h : o.Begins p) (hb : b ≤ o.written.size) :
    p.written.extract 0 b = o.written.extract 0 b := by
  obtain ⟨bytes, h⟩ := h
  have hempty : bytes.extract (0 - o.written.size) (b - o.written.size) = .empty := by
    rw [← ByteArray.size_eq_zero_iff, ByteArray.size_extract]
    omega
  rw [h, ByteArray.extract_append, hempty, ByteArray.append_empty]

/-- What was there and what was written since. -/
theorem Begins.written_eq (h : o.Begins p) : p.written = o.written ++ p.since o.written.size := by
  rw [since]
  conv => lhs; rw [← ByteArray.extract_zero_size (b := p.written),
    ByteArray.extract_eq_extract_append_extract o.written.size (Nat.zero_le _) h.size_le,
    h.extract_eq (Nat.le_refl _), ByteArray.extract_zero_size]

theorem size_since (o : Output) (n : Nat) : (o.since n).size = o.written.size - n := by
  rw [since, ByteArray.size_extract, Nat.min_self]

/-- Of the output that takes everything, the part that takes `b` bytes in all. -/
def upTo (o : Output) (b : Nat) : Output := ⟨o.written, some (b - o.written.size)⟩

theorem write_unlimited (h : o.room = none) (s : String) :
    o.write s = (true, ⟨o.written ++ s.toUTF8, none⟩) := by
  obtain ⟨written, room⟩ := o
  subst h
  rfl

/-- A text that fits. -/
theorem write_upTo_of_le (h : o.room = none) (hs : (o.write s).2.written.size ≤ b) :
    (o.upTo b).write s = (true, (o.write s).2.upTo b) := by
  rw [write_unlimited h] at hs ⊢
  rw [ByteArray.size_append] at hs
  unfold write upTo
  dsimp only
  rw [if_pos (by omega), ByteArray.size_append, Nat.sub_sub]

/-- Of a text that does not fit, what fits is written. -/
theorem write_upTo_of_lt (h : o.room = none) (ho : o.written.size ≤ b)
    (hs : b < (o.write s).2.written.size) :
    (o.upTo b).write s = (false, ⟨(o.write s).2.written.extract 0 b, some 0⟩) := by
  rw [write_unlimited h] at hs ⊢
  rw [ByteArray.size_append] at hs
  unfold write upTo
  dsimp only
  rw [if_neg (by omega), ByteArray.extract_append, extract_zero_of_size_le ho, Nat.zero_sub]

end Output

/-- `u` has just printed a line with which the output gets longer than `b` bytes. What the
fault at the statement left behind is the store before that line was printed, and as much of
the output as fits. -/
inductive Overfull (b : Nat) : Fault → Store → Output → Trail → Prop where
  | line {t : Trail} {o p : Output} {span : Span} : t.machine.output.written.size ≤ b →
      b < p.written.size →
    o.written = p.written.extract 0 b →
    Overfull b ⟨.outputFull, span⟩ t.machine.store o
      ((t.stop (.print span)).go { t.machine with output := p })

/-- The line stands in the trail that leads on from there. -/
theorem Overfull.exists_stops {b : Nat} {e : Fault} {s : Store} {o : Output} {u v : Trail}
    (h : Overfull b e s o u) (hv : u.Leads v)
    (hpairwise : v.stops.Pairwise fun q p => p.machine.output.Begins q.machine.output) :
    b < v.machine.output.written.size ∧ o.written = v.machine.output.written.extract 0 b ∧
      ∃ span, e = ⟨.outputFull, span⟩ ∧
        ∃ before p q after, v.stops = after ++ q :: p :: before ∧ p.event = some (.print span) ∧
          s = p.machine.store ∧ (∀ r ∈ p :: before, r.machine.output.written.size ≤ b) ∧
          b < q.machine.output.written.size := by
  cases h with
  | @line t o p span hfits hlong ho =>
    obtain ⟨after, hstops, -, -⟩ := hv.stops
    refine ⟨Nat.lt_of_lt_of_le hlong hv.output.size_le,
      ho.trans (hv.output.extract_eq (Nat.le_of_lt hlong)).symm, span,
      rfl, t.stops, ⟨some (.print span), t.machine⟩, ⟨none, { t.machine with output := p }⟩, after,
      hstops, rfl, rfl,
      fun r hr => ?_, hlong⟩
    rw [hstops] at hpairwise
    have hprint := (List.pairwise_cons.mp (List.pairwise_append.mp hpairwise).2.1).2
    rcases List.mem_cons.mp hr with rfl | hr
    · exact hfits
    · exact Nat.le_trans (Output.Begins.size_le ((List.pairwise_cons.mp hprint).1 r hr)) hfits

/-- An output that takes `b` bytes in all, and one that takes everything. -/
def Restriction.ofRoom (b : Nat) : Restriction where
  Goes l k := k.output.room = none ∧ k.output.written.size ≤ b ∧ l = ⟨k.maxDepth, k.output.upTo b⟩
  Halts := Overfull b
  maxDepth_le {l k} hg := by
    have hdepth : l.maxDepth = k.maxDepth := by rw [hg.2.2]
    exact Nat.le_of_eq hdepth
  overflow _ hg hle hlt := by
    rw [hg.2.2] at hle
    exact absurd hle (Nat.not_le_of_lt hlt)
  write {l k} s hg hw := by
    obtain ⟨hroom, hsize, rfl⟩ := hg
    have hfits : (k.output.write s).2.written.size ≤ b := by
      by_contra hlong
      rw [Output.write_upTo_of_lt hroom hsize (Nat.lt_of_not_le hlong),
        Output.write_unlimited hroom] at hw
      cases hw
    refine ⟨by rw [Output.write_unlimited hroom], hfits, ?_⟩
    dsimp only
    rw [Output.write_upTo_of_le hroom hfits]
  write_of_write s hg _ := by rw [Output.write_unlimited hg.1]
  full {l t} s span hg hl _ := by
    obtain ⟨hroom, hsize, rfl⟩ := hg
    change t.machine.output.room = none at hroom
    change t.machine.output.written.size ≤ b at hsize
    change ((t.machine.output.upTo b).write s).1 = false at hl
    have hlong : b < (t.machine.output.write s).2.written.size := by
      by_contra hfits
      rw [Output.write_upTo_of_le hroom (Nat.le_of_not_lt hfits)] at hl
      cases hl
    refine .line hsize hlong ?_
    change ((t.machine.output.upTo b).write s).2.written = _
    rw [Output.write_upTo_of_lt hroom hsize hlong]

section

variable {m : Machine} {w : ByteArray} {N fuel : Nat} {body : List Stmt}

/-- Where the output has had room enough, the machine is the same but for the room. -/
theorem Restriction.Joins.eq_of_room {n' n : Machine} {k : Nat}
    (hj : (ofRoom (w.size + N)).Joins n' n) (hdepth : n.maxDepth = k)
    (hw : (⟨w, none⟩ : Output).Begins n.output) :
    (n.output.since w.size).size ≤ N ∧ n' = n.within
      ⟨k, ⟨w ++ n.output.since w.size, some (N - (n.output.since w.size).size)⟩⟩ := by
  obtain ⟨heq, -, hsize, hlimits⟩ := hj
  change n.output.written.size ≤ w.size + N at hsize
  have hle : w.size ≤ n.output.written.size := hw.size_le
  rw [Output.size_since]
  refine ⟨by omega, ?_⟩
  have hwritten : n.output.written = w ++ n.output.since w.size := hw.written_eq
  have hroom : N - (n.output.written.size - w.size) = w.size + N - n.output.written.size := by omega
  rw [heq, hlimits, ← hdepth, hroom, ← hwritten]
  rfl

/-- A program with an output that takes `N` more bytes. If it prints no more than that with an
output that takes everything, it does the same. If it prints more, it ends with a fault at the
statement whose line is the first one too much, when `N` bytes are printed: the store is the one in
which that line was about to be printed, and the frame and the depth of calls are those in which
the program started. -/
theorem interpret_of_room (m : Machine) (w : ByteArray) (N fuel : Nat) (body : List Stmt) :
    let last := (traceAll fuel body (.start { m with output := ⟨w, none⟩ })).state
    let printed := last.machine.output.since w.size
    (printed.size ≤ N → interpret fuel body { m with output := ⟨w, some N⟩ } =
      (interpret fuel body { m with output := ⟨w, none⟩ }).within
        ⟨m.maxDepth, ⟨w ++ printed, some (N - printed.size)⟩⟩) ∧
    (N < printed.size → ∃ span n, interpret fuel body { m with output := ⟨w, some N⟩ } =
      .fault ⟨.outputFull, span⟩ n ∧
      n.output.written = w ++ printed.extract 0 N ∧ n.frame = m.frame ∧ n.depth = m.depth ∧
      ∃ before p q after, last.stops = after ++ q :: p :: before ∧ p.event = some (.print span) ∧
        n.store = p.machine.store ∧ (∀ r ∈ p :: before, (r.machine.output.since w.size).size ≤ N) ∧
        N < (q.machine.output.since w.size).size) := by
  have hmoves := moves_traceAll fuel body { m with output := ⟨w, none⟩ }
  have hmoves' := moves_traceAll fuel body { m with output := ⟨w, some N⟩ }
  have hjoins : (Restriction.ofRoom (w.size + N)).Joins { m with output := ⟨w, some N⟩ }
      { m with output := ⟨w, none⟩ } :=
    ⟨rfl, rfl, Nat.le_add_right _ _, by
      change (⟨m.maxDepth, ⟨w, some N⟩⟩ : Limits) = ⟨m.maxDepth, ⟨w, some (w.size + N - w.size)⟩⟩
      rw [Nat.add_sub_cancel_left]⟩
  have hcuts := (Restriction.ofRoom (w.size + N)).cuts_traceAll fuel body
  have hagrees := hcuts.agrees (.start hjoins)
  have hpairwise := (hcuts.leads (.start { m with output := ⟨w, none⟩ })).pairwise
  rw [← result_traceAll, ← result_traceAll]
  dsimp only
  generalize traceAll fuel body (.start { m with output := ⟨w, some N⟩ }) = x at hagrees hmoves' ⊢
  generalize traceAll fuel body (.start { m with output := ⟨w, none⟩ }) =
    y at hagrees hmoves hpairwise ⊢
  rcases hagrees.result with ⟨hj, hresult⟩ | ⟨e, t, u, rfl, hu, hhalts⟩
  · obtain ⟨hsize, heq⟩ := hj.eq_of_room (k := m.maxDepth) hmoves.maxDepth hmoves.output
    refine ⟨fun _ => ?_, fun hlt => absurd hsize (Nat.not_le_of_lt hlt)⟩
    rw [hresult, heq, Machine.limits_within]
  · obtain ⟨hlong, hwritten, span, rfl, before, p, q, after, hstops, hp, hstore, hbefore, hafter⟩ :=
      hhalts.exists_stops hu hpairwise
    simp only [Output.size_since]
    refine ⟨fun hle => by
      omega, fun _ => ⟨span, t.machine, rfl, ?_, hmoves'.frame, hmoves'.depth, before, p, q, after,
        hstops, hp, hstore, fun r hr => ?_, by omega⟩⟩
    · rw [hwritten, hmoves.output.written_eq]
      change (w ++ y.state.machine.output.since w.size).extract 0 (w.size + N) = _
      rw [ByteArray.extract_append, Output.extract_zero_of_size_le (Nat.le_add_right _ _),
        Nat.zero_sub, Nat.add_sub_cancel_left]
    · have hr := hbefore r hr
      omega

end

/-- A function that prints three lines, one of them inside a block. -/
def linesSource : SourceFile :=
  ⟨"lines.lox", "fun f() { { print true; } print true; print true; } f();"⟩

/-- The machine in which the source starts. -/
def linesEntry : Machine :=
  (Machine.initial .unlimited 9 fun _ => 0).addDistances (Analysis.ofFile linesSource 0).distances

/-- Seven bytes are the first line and a part of the second one. Fifteen bytes are
all that is printed. -/
theorem interpret_of_room_lines :
    let body := (Analysis.ofFile linesSource 0).program.body
    (∃ span n, interpret 60 body { linesEntry with output := ⟨.empty, some 7⟩ } =
      .fault ⟨.outputFull, span⟩ n ∧
      n.output.written = "true\ntr".toUTF8 ∧ n.frame = globals) ∧
    ∃ n, interpret 60 body { linesEntry with output := ⟨.empty, some 15⟩ } = .done () n ∧
      n.output.written = "true\ntrue\ntrue\n".toUTF8 := by
  intro body
  have hprinted :
      (traceAll 60 body
        (.start { linesEntry with output := ⟨.empty, none⟩ })).state.machine.output.since 0 =
        "true\ntrue\ntrue\n".toUTF8 := by decide +kernel
  have hdone : (interpret 60 body { linesEntry with output := ⟨.empty, none⟩ }).isDone := by
    decide +kernel
  have hframe : linesEntry.frame = globals := rfl
  clear_value body
  generalize linesEntry = entry at hprinted hdone hframe ⊢
  have hseven := (interpret_of_room entry .empty 7 60 body).2
  have hfifteen := (interpret_of_room entry .empty 15 60 body).1
  rw [ByteArray.size_empty, hprinted] at hseven hfifteen
  obtain ⟨span, n, hn, hwritten, hnframe, -⟩ := hseven (by decide)
  obtain ⟨⟨⟩, o, ho⟩ := Result.exists_of_isDone hdone
  rw [ho] at hfifteen
  exact ⟨⟨span, n, hn, by rw [hwritten]; decide +kernel, hnframe.trans hframe⟩, _,
    hfifteen (by decide), rfl⟩

end Lox
