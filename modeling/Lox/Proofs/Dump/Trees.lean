import Lox.Proofs.Dump.Form
import Lox.Proofs.Grammar.Spelling
import Lox.Proofs.Likeness.Syntax
import Lox.Syntax.Dump
/-!
# The forms of trees

Each tree has a form, and is shown as the text of that form. What the node of a tree is and
which parts it has can be seen from its form, so trees with the same form differ in nothing
but spans and numbers.
-/

namespace Lox

open Form

/-! ### Forms -/

mutual

def Expr.form : Expr → Form
  | .literal _ v => word v.token
  | .grouping _ e => node (.identifier "group") [e.form]
  | .unary _ op _ e => node op.token [e.form]
  | .binary _ l op _ r => node (InfixOp.binary op).token [l.form, r.form]
  | .logical _ l op r => node (InfixOp.logical op).token [l.form, r.form]
  | .var _ x => word x.token
  | .assign _ x e => node (.symbol .eq) [word x.token, e.form]
  | .call _ f _ es => node (.identifier "call") (f.form :: Expr.forms es)
  | .get _ e x => node (.symbol .dot) [e.form, word x.token]
  | .set _ e x v => node (.identifier "set") [e.form, word x.token, v.form]
  | .this _ => word (.keyword .this)
  | .super _ x => node (.keyword .super) [word x.token]

def Expr.forms : List Expr → List Form
  | [] => []
  | e :: es => e.form :: Expr.forms es

end

def Superclass.forms : Option Superclass → List Form
  | none => []
  | some p => [word (.symbol .less), word p.name.token]

mutual

def Stmt.form : Stmt → Form
  | .expr _ e => node (.symbol .semicolon) [e.form]
  | .print _ e => node (.keyword .print) [e.form]
  | .var _ x none => node (.keyword .var) [word x.token]
  | .var _ x (some e) => node (.keyword .var) [word x.token, e.form]
  | .block _ b => node (.identifier "block") (Stmt.forms b)
  | .ifElse _ c s none => node (.keyword .if) [c.form, s.form]
  | .ifElse _ c s (some t) => node (.keyword .if) [c.form, s.form, t.form]
  | .whileLoop _ c s => node (.keyword .while) [c.form, s.form]
  | .function d => d.form (.keyword .fun)
  | .classDecl _ x p ms =>
    node (.keyword .cls) (word x.token :: (Superclass.forms p ++ FunctionDecl.forms ms))
  | .returning _ _ none => node (.keyword .return) []
  | .returning _ _ (some e) => node (.keyword .return) [e.form]

def Stmt.forms : List Stmt → List Form
  | [] => []
  | s :: ss => s.form :: Stmt.forms ss

/-- A function or a method, as the first word says. -/
def FunctionDecl.form (first : TokenKind) : FunctionDecl → Form
  | .mk x ps b _ => node first (word x.token :: list (ps.map fun p => word p.token) :: Stmt.forms b)

def FunctionDecl.forms : List FunctionDecl → List Form
  | [] => []
  | d :: ds => d.form (.identifier "method") :: FunctionDecl.forms ds

end

/-! ### Trees are shown as their forms -/

theorem Form.text_node (first : TokenKind) (ms : List Form) :
    (node first ms).text = Dump.node first.shown (textAll ms) := rfl

theorem Literal.dump_eq (v : Literal) : v.dump = v.token.shown := by
  rcases v with _ | (_ | _) | _ | _ <;> rfl

theorem UnaryOp.text_eq (op : UnaryOp) : op.text = op.token.shown := by cases op <;> rfl

theorem BinaryOp.text_eq (op : BinaryOp) :
    op.text = (InfixOp.binary op).token.shown := by cases op <;> rfl

theorem LogicalOp.text_eq (op : LogicalOp) :
    op.text = (InfixOp.logical op).token.shown := by cases op <;> rfl

mutual

theorem Expr.dump_eq : (e : Expr) → e.dump = e.form.text
  | .literal _ v => v.dump_eq
  | .grouping _ e => by rw [dump, form, text_node, e.dump_eq]; rfl
  | .unary _ op _ e => by rw [dump, form, text_node, e.dump_eq, op.text_eq]; rfl
  | .binary _ l op _ r => by rw [dump, form, text_node, l.dump_eq, r.dump_eq, op.text_eq]; rfl
  | .logical _ l op r => by rw [dump, form, text_node, l.dump_eq, r.dump_eq, op.text_eq]; rfl
  | .var _ x => rfl
  | .assign _ x e => by rw [dump, form, text_node, e.dump_eq]; rfl
  | .call _ f _ es => by rw [dump, form, text_node, f.dump_eq, Expr.dumpAll_eq es]; rfl
  | .get _ e x => by rw [dump, form, text_node, e.dump_eq]; rfl
  | .set _ e x v => by rw [dump, form, text_node, e.dump_eq, v.dump_eq]; rfl
  | .this _ => rfl
  | .super _ x => rfl

theorem Expr.dumpAll_eq : (es : List Expr) → Expr.dumpAll es = textAll (Expr.forms es)
  | [] => rfl
  | e :: es => by rw [dumpAll, forms, textAll, e.dump_eq, Expr.dumpAll_eq es]

end

/-- A class and the one that it inherits from are shown with blanks between them. -/
theorem Superclass.dumpHead_eq (x : Ident) (p : Option Superclass) (ts : List String) :
    " ".intercalate ("class" :: Superclass.dumpHead x p :: ts) =
      " ".intercalate ("class" :: x.name :: (textAll (Superclass.forms p) ++ ts)) := by
  cases p with
  | none => rfl
  | some p =>
    have hless : ∀ s : String, " < " ++ s = " " ++ ("< " ++ s) := @String.append_assoc " " "< "
    have htexts : textAll (Superclass.forms (some p)) = ["<", p.name.name] := rfl
    rw [htexts]
    cases ts <;> simp [dumpHead, String.append_assoc, hless]

theorem Ident.text_forms (ps : List Ident) :
    textAll (ps.map fun p => word p.token) = ps.map Ident.name := by
  rw [textAll_eq_map, List.map_map]
  rfl

private theorem Form.textAll_append (ms ns : List Form) :
    textAll (ms ++ ns) = textAll ms ++ textAll ns := by
  simp [textAll_eq_map]

mutual

theorem Stmt.dump_eq : (s : Stmt) → s.dump = s.form.text
  | .expr _ e => by rw [Stmt.dump, Stmt.form, text_node, e.dump_eq]; rfl
  | .print _ e => by rw [Stmt.dump, Stmt.form, text_node, e.dump_eq]; rfl
  | .var _ x none => rfl
  | .var _ x (some e) => by rw [Stmt.dump, Stmt.form, text_node, e.dump_eq]; rfl
  | .block _ b => by rw [Stmt.dump, Stmt.form, text_node, Stmt.dumpAll_eq b]; rfl
  | .ifElse _ c s none => by rw [Stmt.dump, Stmt.form, text_node, c.dump_eq, s.dump_eq]; rfl
  | .ifElse _ c s (some t) => by
    rw [Stmt.dump, Stmt.form, text_node, c.dump_eq, s.dump_eq, t.dump_eq]; rfl
  | .whileLoop _ c s => by rw [Stmt.dump, Stmt.form, text_node, c.dump_eq, s.dump_eq]; rfl
  | .function d => d.dump_eq (.keyword .fun)
  | .classDecl _ x p ms => by
    rw [Stmt.dump, Stmt.form, text_node, Dump.node, Superclass.dumpHead_eq,
      FunctionDecl.dumpAll_eq ms, textAll, textAll_append]
    rfl
  | .returning _ _ none => rfl
  | .returning _ _ (some e) => by rw [Stmt.dump, Stmt.form, text_node, e.dump_eq]; rfl

theorem Stmt.dumpAll_eq : (ss : List Stmt) → Stmt.dumpAll ss = textAll (Stmt.forms ss)
  | [] => rfl
  | s :: ss => by rw [Stmt.dumpAll, Stmt.forms, textAll, s.dump_eq, Stmt.dumpAll_eq ss]

theorem FunctionDecl.dump_eq (first : TokenKind) :
    (d : FunctionDecl) → d.dump first.shown = (d.form first).text
  | .mk x ps b _ => by
    rw [FunctionDecl.dump, FunctionDecl.form, text_node, textAll, textAll, text, text,
      Ident.text_forms, Stmt.dumpAll_eq b]
    rfl

theorem FunctionDecl.dumpAll_eq :
    (ds : List FunctionDecl) → FunctionDecl.dumpAll ds = textAll (FunctionDecl.forms ds)
  | [] => rfl
  | d :: ds => by
    have hd : d.dump "method" = (d.form (.identifier "method")).text :=
      d.dump_eq (.identifier "method")
    rw [FunctionDecl.dumpAll, FunctionDecl.forms, textAll, hd, FunctionDecl.dumpAll_eq ds]

end

/-! ### Trees of one form are alike -/

namespace Likeness

variable {x x' : Lox.Ident} {p p' : Lox.Superclass}

theorem any_ident (h : x.token = x'.token) : any.Ident x x' :=
  ⟨(TokenKind.identifier.inj h).symm, trivial⟩

private theorem any_superclass (h : p.name.token = p'.name.token) : any.Superclass p p' :=
  ⟨any_site _ _, any_ident h⟩

end Likeness

open Likeness

theorem Literal.token_inj {v w : Literal} (h : v.token = w.token) : v = w := by
  rcases v with _ | (_ | _) | _ | _ <;> rcases w with _ | (_ | _) | _ | _ <;> cases h <;> rfl

theorem UnaryOp.token_inj {op op' : UnaryOp} (h : op.token = op'.token) : op = op' := by
  cases op <;> cases op' <;> first | rfl | cases h

theorem InfixOp.token_inj {op op' : InfixOp} (h : op.token = op'.token) : op = op' := by
  rcases op with (_ | _) | (_ | _ | _ | _ | _ | _ | _ | _ | _ | _) <;>
    rcases op' with (_ | _) | (_ | _ | _ | _ | _ | _ | _ | _ | _ | _) <;> first | rfl | cases h

private theorem Form.node_inj {j k : TokenKind} {ms ns : List Form} :
    node j ms = node k ns ↔ j = k ∧ ms = ns := by
  simp [node]

mutual

theorem Expr.like_of_form : (e e' : Expr) → e.form = e'.form → e.Like any e'
  | .literal _ v, e', h => by
    cases e' with
    | literal =>
      obtain rfl := Literal.token_inj (word.inj h)
      exact .literal (any_site _ _)
    | var | this =>
      rcases v with _ | (_ | _) | _ | _ <;> simp [form, Literal.token, Ident.token] at h
    | _ => cases h
  | .grouping _ e, e', h => by
    cases e' with
    | grouping _ e' =>
      exact .grouping (any_site _ _) (e.like_of_form e' (by simpa [form, node] using h))
    | unary _ op => cases op <;> simp [form, node, UnaryOp.token] at h
    | _ => simp [form, node] at h
  | .unary _ op _ e, e', h => by
    cases e' with
    | unary _ op' _ e' =>
      obtain ⟨hop, he⟩ : op.token = op'.token ∧ e.form = e'.form := by simpa [form, node] using h
      obtain rfl := UnaryOp.token_inj hop
      exact .unary (any_site _ _) trivial (e.like_of_form e' he)
    | _ => cases op <;> simp [form, node, UnaryOp.token] at h
  | .binary _ l op _ r, e', h => by
    cases e' with
    | binary _ l' op' _ r' =>
      obtain ⟨hop, hl, hr⟩ : (InfixOp.binary op).token = (InfixOp.binary op').token ∧
        l.form = l'.form ∧
        r.form = r'.form := by simpa [form, node] using h
      obtain rfl := InfixOp.binary.inj (InfixOp.token_inj hop)
      exact .binary (any_site _ _) (l.like_of_form l' hl) trivial (r.like_of_form r' hr)
    | logical => cases InfixOp.token_inj (word.inj (List.cons.inj (list.inj h)).1)
    | _ => cases op <;> simp [form, node, InfixOp.token] at h
  | .logical _ l op r, e', h => by
    cases e' with
    | logical _ l' op' r' =>
      obtain ⟨hop, hl, hr⟩ : (InfixOp.logical op).token = (InfixOp.logical op').token ∧
        l.form = l'.form ∧
        r.form = r'.form := by simpa [form, node] using h
      obtain rfl := InfixOp.logical.inj (InfixOp.token_inj hop)
      exact .logical (any_site _ _) (l.like_of_form l' hl) (r.like_of_form r' hr)
    | binary => cases InfixOp.token_inj (word.inj (List.cons.inj (list.inj h)).1)
    | _ => cases op <;> simp [form, node, InfixOp.token] at h
  | .var _ x, e', h => by
    cases e' with
    | var => exact .var (any_site _ _) (any_ident (word.inj h))
    | literal _ v =>
      rcases v with _ | (_ | _) | _ | _ <;> simp [form, Literal.token, Ident.token] at h
    | _ => cases h
  | .assign _ x e, e', h => by
    cases e' with
    | assign _ x' e' =>
      obtain ⟨hx, he⟩ : x.token = x'.token ∧ e.form = e'.form := by simpa [form, node] using h
      exact .assign (any_site _ _) (any_ident hx) (e.like_of_form e' he)
    | binary _ _ op | logical _ _ op => cases op <;> simp [form, node, InfixOp.token] at h
    | _ => simp [form, node] at h
  | .call _ f _ es, e', h => by
    cases e' with
    | call _ f' _ es' =>
      obtain ⟨hf, hes⟩ : f.form = f'.form ∧ Expr.forms es = Expr.forms es' := by
        simpa [form, node] using h
      exact .call (any_site _ _) (f.like_of_form f' hf) trivial
        (Expr.forall₂_like_of_forms es es' hes)
    | unary _ op => cases op <;> simp [form, node, UnaryOp.token] at h
    | binary _ _ op | logical _ _ op => cases op <;> simp [form, node, InfixOp.token] at h
    | _ => simp [form, node] at h
  | .get _ e x, e', h => by
    cases e' with
    | get _ e' x' =>
      obtain ⟨he, hx⟩ : e.form = e'.form ∧ x.token = x'.token := by simpa [form, node] using h
      exact .get (any_site _ _) (e.like_of_form e' he) (any_ident hx)
    | binary _ _ op | logical _ _ op => cases op <;> simp [form, node, InfixOp.token] at h
    | _ => simp [form, node] at h
  | .set _ e x v, e', h => by
    cases e' with
    | set _ e' x' v' =>
      obtain ⟨he, hx, hv⟩ : e.form = e'.form ∧ x.token = x'.token ∧ v.form = v'.form := by
        simpa [form, node] using h
      exact .set (any_site _ _) (e.like_of_form e' he) (any_ident hx) (v.like_of_form v' hv)
    | _ => simp [form, node] at h
  | .this _, e', h => by
    cases e' with
    | this => exact .this (any_site _ _)
    | literal _ v => rcases v with _ | (_ | _) | _ | _ <;> simp [form, Literal.token] at h
    | _ => cases h
  | .super _ x, e', h => by
    cases e' with
    | super _ x' => exact .super (any_site _ _) (any_ident (by simpa [form, node] using h))
    | unary _ op => cases op <;> simp [form, node, UnaryOp.token] at h
    | _ => simp [form, node] at h

theorem Expr.forall₂_like_of_forms : (es es' : List Expr) → Expr.forms es = Expr.forms es' →
    List.Forall₂ (Expr.Like any) es es'
  | [], [], _ => .nil
  | e :: es, e' :: es', h => by
    obtain ⟨he, hes⟩ := List.cons.inj h
    exact .cons (e.like_of_form e' he) (Expr.forall₂_like_of_forms es es' hes)

end

theorem Ident.forall₂_like_of_forms {ps ps' : List Ident}
    (h : (ps.map fun p => word p.token) = ps'.map fun p => word p.token) :
    List.Forall₂ any.Ident ps ps' := by
  induction ps generalizing ps' with
  | nil =>
    obtain rfl := List.map_eq_nil_iff.mp h.symm
    exact .nil
  | cons p ps ih =>
    obtain ⟨p', ps', rfl, hp, hps⟩ := List.map_eq_cons_iff.mp h.symm
    exact .cons (any_ident (word.inj hp.symm)) (ih hps.symm)

/-- The methods of a class are lists, so that no method is taken for the name of a superclass. -/
theorem Superclass.like_of_forms {p p' : Option Superclass} {ms ms' : List FunctionDecl}
    (h : Superclass.forms p ++ FunctionDecl.forms ms =
      Superclass.forms p' ++ FunctionDecl.forms ms') :
    Option.Rel any.Superclass p p' ∧ FunctionDecl.forms ms = FunctionDecl.forms ms' := by
  have hmethod : ∀ {ms : List FunctionDecl} {k : TokenKind} {l : List Form}, FunctionDecl.forms ms ≠
      word k :: l := by
    rintro (_ | ⟨⟨x, ps, b, t⟩, ms⟩) k l h
    · cases h
    · cases (List.cons.inj h).1
  cases p with
  | none =>
    cases p' with
    | none => exact ⟨.none, h⟩
    | some p' => exact absurd h hmethod
  | some p =>
    cases p' with
    | none => exact absurd h.symm hmethod
    | some p' =>
      obtain ⟨hx, hms⟩ : p.name.token = p'.name.token ∧
          FunctionDecl.forms ms = FunctionDecl.forms ms' := by
        simpa [forms] using h
      exact ⟨.some (any_superclass hx), hms⟩

/-- The word that the form of a statement begins with. -/
def Stmt.head : Stmt → TokenKind
  | .expr .. => .symbol .semicolon
  | .print .. => .keyword .print
  | .var .. => .keyword .var
  | .block .. => .identifier "block"
  | .ifElse .. => .keyword .if
  | .whileLoop .. => .keyword .while
  | .function .. => .keyword .fun
  | .classDecl .. => .keyword .cls
  | .returning .. => .keyword .return

theorem Stmt.head_eq {s s' : Stmt} (h : s.form = s'.form) : s.head = s'.head := by
  have hhead : ∀ s : Stmt, ∃ ms, s.form = node s.head ms := by
    rintro (_ | _ | ⟨_, _, _ | _⟩ | _ | ⟨_, _, _, _ | _⟩ | _ | ⟨_, _, _, _⟩ | _ | ⟨_, _, _ | _⟩) <;>
      exact ⟨_, rfl⟩
  obtain ⟨ms, hs⟩ := hhead s
  obtain ⟨ms', hs'⟩ := hhead s'
  rw [hs, hs'] at h
  exact (node_inj.mp h).1

mutual

theorem Stmt.like_of_form : (s s' : Stmt) → s.form = s'.form → s.Like any s'
  | .expr _ e, s', h => by
    cases s' with
    | expr _ e' => exact .expr trivial (e.like_of_form e' (by simpa [Stmt.form, node] using h))
    | _ => simpa [Stmt.head] using Stmt.head_eq h
  | .print _ e, s', h => by
    cases s' with
    | print _ e' => exact .print trivial (e.like_of_form e' (by simpa [Stmt.form, node] using h))
    | _ => simpa [Stmt.head] using Stmt.head_eq h
  | .var _ x none, s', h => by
    cases s' with
    | var _ x' e' =>
      cases e' with
      | none => exact .var trivial (any_ident (by simpa [Stmt.form, node] using h)) .none
      | some e' => simp [Stmt.form, node] at h
    | _ => simpa [Stmt.head] using Stmt.head_eq h
  | .var _ x (some e), s', h => by
    cases s' with
    | var _ x' e' =>
      cases e' with
      | none => simp [Stmt.form, node] at h
      | some e' =>
        obtain ⟨hx, he⟩ : x.token = x'.token ∧ e.form = e'.form := by
          simpa [Stmt.form, node] using h
        exact .var trivial (any_ident hx) (.some (e.like_of_form e' he))
    | _ => simpa [Stmt.head] using Stmt.head_eq h
  | .block _ b, s', h => by
    cases s' with
    | block _ b' =>
      exact .block trivial (Stmt.forall₂_like_of_forms b b' (by simpa [Stmt.form, node] using h))
    | _ => simpa [Stmt.head] using Stmt.head_eq h
  | .ifElse _ c s none, s', h => by
    cases s' with
    | ifElse _ c' s' n' =>
      cases n' with
      | none =>
        obtain ⟨hc, hs⟩ : c.form = c'.form ∧ s.form = s'.form := by simpa [Stmt.form, node] using h
        exact .ifElse trivial (c.like_of_form c' hc) (s.like_of_form s' hs) .none
      | some n' => simp [Stmt.form, node] at h
    | _ => simpa [Stmt.head] using Stmt.head_eq h
  | .ifElse _ c s (some n), s', h => by
    cases s' with
    | ifElse _ c' s' n' =>
      cases n' with
      | none => simp [Stmt.form, node] at h
      | some n' =>
        obtain ⟨hc, hs, hn⟩ : c.form = c'.form ∧ s.form = s'.form ∧ n.form = n'.form := by
          simpa [Stmt.form, node] using h
        exact .ifElse trivial (c.like_of_form c' hc) (s.like_of_form s' hs)
          (.some (n.like_of_form n' hn))
    | _ => simpa [Stmt.head] using Stmt.head_eq h
  | .whileLoop _ c s, s', h => by
    cases s' with
    | whileLoop _ c' s' =>
      obtain ⟨hc, hs⟩ : c.form = c'.form ∧ s.form = s'.form := by simpa [Stmt.form, node] using h
      exact .whileLoop trivial (c.like_of_form c' hc) (s.like_of_form s' hs)
    | _ => simpa [Stmt.head] using Stmt.head_eq h
  | .function d, s', h => by
    cases s' with
    | function d' => exact .function (d.like_of_form (.keyword .fun) d' h)
    | _ => simpa [Stmt.head] using Stmt.head_eq h
  | .classDecl _ x p ms, s', h => by
    cases s' with
    | classDecl _ x' p' ms' =>
      obtain ⟨hx, hrest⟩ : x.token = x'.token ∧ Superclass.forms p ++ FunctionDecl.forms ms =
        Superclass.forms p' ++ FunctionDecl.forms ms' := by simpa [Stmt.form, node] using h
      obtain ⟨hp, hms⟩ := Superclass.like_of_forms hrest
      exact .classDecl trivial (any_ident hx) hp (FunctionDecl.forall₂_like_of_forms ms ms' hms)
    | _ => simpa [Stmt.head] using Stmt.head_eq h
  | .returning _ _ none, s', h => by
    cases s' with
    | returning _ _ e' =>
      cases e' with
      | none => exact .returning trivial trivial .none
      | some e' => simp [Stmt.form, node] at h
    | _ => simpa [Stmt.head] using Stmt.head_eq h
  | .returning _ _ (some e), s', h => by
    cases s' with
    | returning _ _ e' =>
      cases e' with
      | none => simp [Stmt.form, node] at h
      | some e' =>
        exact .returning trivial trivial
          (.some (e.like_of_form e' (by simpa [Stmt.form, node] using h)))
    | _ => simpa [Stmt.head] using Stmt.head_eq h

theorem Stmt.forall₂_like_of_forms : (ss ss' : List Stmt) → Stmt.forms ss = Stmt.forms ss' →
    List.Forall₂ (Stmt.Like any) ss ss'
  | [], [], _ => .nil
  | s :: ss, s' :: ss', h => by
    obtain ⟨hs, hss⟩ := List.cons.inj h
    exact .cons (s.like_of_form s' hs) (Stmt.forall₂_like_of_forms ss ss' hss)

theorem FunctionDecl.like_of_form (first : TokenKind) :
    (d d' : FunctionDecl) → d.form first = d'.form first →
    d.Like any d'
  | .mk x ps b _, .mk x' ps' b' _, h => by
    obtain ⟨hx, hps, hb⟩ : x.token = x'.token ∧
    (ps.map fun p => word p.token) = (ps'.map fun p => word p.token) ∧
      Stmt.forms b = Stmt.forms b' := by simpa [FunctionDecl.form, node] using h
    exact .mk (any_ident hx) (Ident.forall₂_like_of_forms hps)
      (Stmt.forall₂_like_of_forms b b' hb) trivial

theorem FunctionDecl.forall₂_like_of_forms : (ds ds' : List FunctionDecl) →
    FunctionDecl.forms ds = FunctionDecl.forms ds' → List.Forall₂ (FunctionDecl.Like any) ds ds'
  | [], [], _ => .nil
  | d :: ds, d' :: ds', h => by
    obtain ⟨hd, hds⟩ := List.cons.inj h
    exact .cons (d.like_of_form _ d' hd) (FunctionDecl.forall₂_like_of_forms ds ds' hds)

end

/-! ### Trees that are alike have one form -/

theorem Likeness.Ident.token_eq {L : Likeness} {x x' : Lox.Ident} (h : L.Ident x x') :
    x.token = x'.token :=
  congrArg TokenKind.identifier h.name.symm

section

variable {L : Likeness}

mutual

theorem Expr.form_eq_of_like : (e e' : Expr) → e.Like L e' → e.form = e'.form
  | .literal _ _, _, .literal _ => rfl
  | .grouping _ e, _, .grouping _ he => by rw [form, form, e.form_eq_of_like _ he]
  | .unary _ _ _ e, _, .unary _ _ he => by rw [form, form, e.form_eq_of_like _ he]
  | .binary _ l _ _ r, _, .binary _ hl _ hr => by
    rw [form, form, l.form_eq_of_like _ hl, r.form_eq_of_like _ hr]
  | .logical _ l _ r, _, .logical _ hl hr => by
    rw [form, form, l.form_eq_of_like _ hl, r.form_eq_of_like _ hr]
  | .var _ _, _, .var _ hx => by rw [form, form, hx.token_eq]
  | .assign _ _ e, _, .assign _ hx he => by rw [form, form, hx.token_eq, e.form_eq_of_like _ he]
  | .call _ f _ es, _, .call _ hf _ hes => by
    rw [form, form, f.form_eq_of_like _ hf, Expr.forms_eq_of_forall₂_like es _ hes]
  | .get _ e _, _, .get _ he hx => by rw [form, form, e.form_eq_of_like _ he, hx.token_eq]
  | .set _ e _ v, _, .set _ he hx hv => by
    rw [form, form, e.form_eq_of_like _ he, hx.token_eq, v.form_eq_of_like _ hv]
  | .this _, _, .this _ => rfl
  | .super _ _, _, .super _ hx => by rw [form, form, hx.token_eq]

theorem Expr.forms_eq_of_forall₂_like : (es es' : List Expr) → List.Forall₂ (Expr.Like L) es es' →
    Expr.forms es = Expr.forms es'
  | [], _, .nil => rfl
  | e :: es, _, .cons he hes => by
    rw [forms, forms, e.form_eq_of_like _ he, Expr.forms_eq_of_forall₂_like es _ hes]

end

theorem Ident.forms_eq_of_forall₂_like {ps ps' : List Ident} (h : List.Forall₂ L.Ident ps ps') :
    (ps.map fun p => word p.token) = ps'.map fun p => word p.token := by
  induction h with
  | nil => rfl
  | cons hp _ ih => rw [List.map_cons, List.map_cons, hp.token_eq, ih]

mutual

theorem Stmt.form_eq_of_like : (s s' : Stmt) → s.Like L s' → s.form = s'.form
  | .expr _ e, _, .expr _ he => by rw [Stmt.form, Stmt.form, e.form_eq_of_like _ he]
  | .print _ e, _, .print _ he => by rw [Stmt.form, Stmt.form, e.form_eq_of_like _ he]
  | .var _ _ none, _, .var _ hx .none => by rw [Stmt.form, Stmt.form, hx.token_eq]
  | .var _ _ (some e), _, .var _ hx (.some he) => by
    rw [Stmt.form, Stmt.form, hx.token_eq, e.form_eq_of_like _ he]
  | .block _ b, _, .block _ hb => by rw [Stmt.form, Stmt.form, Stmt.forms_eq_of_forall₂_like b _ hb]
  | .ifElse _ c s none, _, .ifElse _ hc hs .none => by
    rw [Stmt.form, Stmt.form, c.form_eq_of_like _ hc, s.form_eq_of_like _ hs]
  | .ifElse _ c s (some n), _, .ifElse _ hc hs (.some hn) => by
    rw [Stmt.form, Stmt.form, c.form_eq_of_like _ hc, s.form_eq_of_like _ hs,
      n.form_eq_of_like _ hn]
  | .whileLoop _ c s, _, .whileLoop _ hc hs => by
    rw [Stmt.form, Stmt.form, c.form_eq_of_like _ hc, s.form_eq_of_like _ hs]
  | .function d, _, .function hd => d.form_eq_of_like (.keyword .fun) _ hd
  | .classDecl _ _ none ms, _, .classDecl _ hx .none hm => by
    rw [Stmt.form, Stmt.form, hx.token_eq, FunctionDecl.forms_eq_of_forall₂_like ms _ hm]
  | .classDecl _ _ (some _) ms, _, .classDecl _ hx (.some hp) hm => by
    rw [Stmt.form, Stmt.form, hx.token_eq, Superclass.forms, Superclass.forms, hp.name.token_eq,
      FunctionDecl.forms_eq_of_forall₂_like ms _ hm]
  | .returning _ _ none, _, .returning _ _ .none => rfl
  | .returning _ _ (some e), _, .returning _ _ (.some he) => by
    rw [Stmt.form, Stmt.form, e.form_eq_of_like _ he]

theorem Stmt.forms_eq_of_forall₂_like : (ss ss' : List Stmt) → List.Forall₂ (Stmt.Like L) ss ss' →
    Stmt.forms ss = Stmt.forms ss'
  | [], _, .nil => rfl
  | s :: ss, _, .cons hs hss => by
    rw [Stmt.forms, Stmt.forms, s.form_eq_of_like _ hs, Stmt.forms_eq_of_forall₂_like ss _ hss]

theorem FunctionDecl.form_eq_of_like (first : TokenKind) : (d d' : FunctionDecl) → d.Like L d' →
    d.form first = d'.form first
  | .mk _ _ b _, _, .mk hx hps hb _ => by
    rw [FunctionDecl.form, FunctionDecl.form, hx.token_eq, Ident.forms_eq_of_forall₂_like hps,
      Stmt.forms_eq_of_forall₂_like b _ hb]

theorem FunctionDecl.forms_eq_of_forall₂_like : (ds ds' : List FunctionDecl) →
    List.Forall₂ (FunctionDecl.Like L) ds ds' → FunctionDecl.forms ds = FunctionDecl.forms ds'
  | [], _, .nil => rfl
  | d :: ds, _, .cons hd hds => by
    rw [FunctionDecl.forms, FunctionDecl.forms, d.form_eq_of_like _ _ hd,
      FunctionDecl.forms_eq_of_forall₂_like ds _ hds]

end

end

end Lox
