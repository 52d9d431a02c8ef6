import Lox.Proofs.Grammar.Rules
/-!
# Brackets balance

Every rule of the grammar closes the braces and parentheses that it opens. The phrase of a rule
shows this when the rules in it are taken to do so: each of its branches opens and closes the same
number of brackets, and what may be left out or repeated closes all that it opens.
-/

namespace Lox

namespace TokenKind

/-- By how much a token changes the number of open brackets. -/
def weight : TokenKind → Int
  | symbol .leftBrace | symbol .leftParen => 1
  | symbol .rightBrace | symbol .rightParen => -1
  | _ => 0

/-- The number of brackets that are open after the words, less those that were before. -/
def depth : List TokenKind → Int
  | [] => 0
  | k :: w => k.weight + depth w

theorem depth_append (u v : List TokenKind) : depth (u ++ v) = depth u + depth v := by
  induction u with
  | nil => exact (Int.zero_add _).symm
  | cons k u ih => rw [List.cons_append, depth, ih, depth, Int.add_assoc]

theorem depth_flatten {ws : List (List TokenKind)} (h : ∀ w ∈ ws, depth w = 0) :
    depth ws.flatten = 0 := by
  induction ws with
  | nil => rfl
  | cons w ws ih =>
    obtain ⟨hw, hws⟩ := List.forall_mem_cons.mp h
    rw [List.flatten_cons, depth_append, hw, ih hws, Int.add_zero]

end TokenKind

open TokenKind

namespace Phrase

/-- The number of brackets that a phrase leaves open, if it is the same for all that
the phrase matches. -/
def depth? : Phrase → Option Int
  | word _ | number | string | name | rule _ => some 0
  | sign s => some (TokenKind.symbol s).weight
  | seq p q => p.depth?.bind fun n => q.depth?.map (n + ·)
  | either p q => if p.depth? = q.depth? then p.depth? else none
  | optional p | many p | upTo _ p => if p.depth? = some 0 then some 0 else none

private theorem Matches.depth_eq {D : Rule → List TokenKind → Prop}
    (hD : ∀ r w, D r w → depth w = 0) {p : Phrase} {w : List TokenKind} {n : Int}
    (h : p.Matches D w) (hn : p.depth? = some n) : depth w = n := by
  induction p generalizing w n with
  | word =>
    obtain rfl := Option.some.inj hn
    rw [h]
    rfl
  | sign s =>
    rw [h, ← Option.some.inj hn]
    exact Int.add_zero _
  | number | string | name =>
    obtain rfl := Option.some.inj hn
    obtain ⟨x, rfl⟩ := h
    rfl
  | rule r =>
    rw [← Option.some.inj hn]
    exact hD r w h
  | seq p q hp hq =>
    obtain ⟨a, ha, hn⟩ := Option.bind_eq_some_iff.mp hn
    obtain ⟨b, hb, rfl⟩ := Option.map_eq_some_iff.mp hn
    obtain ⟨u, v, rfl, hu, hv⟩ := h
    rw [depth_append, hp hu ha, hq hv hb]
  | either p q hp hq =>
    obtain ⟨heq, hn⟩ := Option.ite_none_right_eq_some.mp hn
    exact h.elim (hp · hn) (hq · (heq ▸ hn))
  | optional p hp =>
    obtain ⟨hzero, hn⟩ := Option.ite_none_right_eq_some.mp hn
    rw [← Option.some.inj hn]
    obtain rfl | h := h
    · rfl
    · exact hp h hzero
  | many p hp =>
    obtain ⟨hzero, hn⟩ := Option.ite_none_right_eq_some.mp hn
    rw [← Option.some.inj hn]
    obtain ⟨ws, rfl, hws⟩ := h
    exact depth_flatten fun u hu => hp (hws u hu) hzero
  | upTo k p hp =>
    obtain ⟨hzero, hn⟩ := Option.ite_none_right_eq_some.mp hn
    rw [← Option.some.inj hn]
    obtain ⟨ws, rfl, -, hws⟩ := h
    exact depth_flatten fun u hu => hp (hws u hu) hzero

end Phrase

private theorem Rule.depth?_phrase (r : Rule) : r.phrase.depth? = some 0 := by
  cases r <;> rfl

theorem Rule.Derives.depth_eq_zero {r : Rule} {w : List TokenKind} (h : r.Derives w) :
    depth w = 0 :=
  h.induct fun r _ h => h.depth_eq (fun _ _ h => h) r.depth?_phrase

end Lox
