import KitchenScript.Proofs.Token.Coverage
import KitchenScript.Program.Tree
import Mathlib.Order.Defs.PartialOrder

/-!
# How nodes are written

A node of a program is written as tokens of its own, line ends where its form allows them, and its
children, in a fixed order.  `Written` says that some tokens one after the other are a node written
out, and that the span of the node runs from the first of them to the last, for the node itself and
for all nodes inside it.  The reader plays no part in this.

Where tokens follow each other without overlapping, as those of a text do, the spans of such a node
are nested and in order.
-/

namespace KitchenScript

/-! ## Positions and spans -/

instance : Preorder Position where
  le := (· ≤ ·)
  lt := (· < ·)
  le_refl p := by
    rw [Position.le_iff]
    omega
  le_trans p q r hpq hqr := by
    rw [Position.le_iff] at hpq hqr ⊢
    omega
  lt_iff_le_not_ge p q := by
    rw [Position.lt_iff, Position.le_iff, Position.le_iff]
    omega

theorem Position.earlier_of_le {p q : Position} (h : p ≤ q) : p.earlier q = p :=
  if_pos h

theorem Position.later_of_le {p q : Position} (h : p ≤ q) : p.later q = q := by
  unfold later
  split
  · rename_i hqp
    rw [le_iff] at h hqp
    obtain ⟨line, column⟩ := p
    obtain ⟨line', column'⟩ := q
    simp only at h hqp
    congr 1 <;> omega
  · rfl

namespace Span

def Within (s t : Span) : Prop :=
  t.first ≤ s.first ∧ s.last ≤ t.last

/-- The span runs from where the first token starts to where the last one ends. -/
def Over (s : Span) (w : List Token) : Prop :=
  w.head?.map (·.span.first) = some s.first ∧ w.getLast?.map (·.span.last) = some s.last

end Span

/-- Each token ends behind its start, and before the next one starts. -/
structure Ordered (w : List Token) : Prop where
  proper : ∀ t ∈ w, t.span.first ≤ t.span.last
  apart : w.Pairwise fun t u => t.span.last < u.span.first

theorem ordered_tokenize (text : String) : Ordered (tokenize text) where
  proper t ht := ((Lexer.scan_tokensFrom .start text.toList).le_first t ht).2
  apart := (Lexer.scan_tokensFrom .start text.toList).pairwise

namespace Ordered

variable {v w u : List Token}

theorem sublist (h : Ordered w) (hv : v.Sublist w) : Ordered v where
  proper t ht := h.proper t (hv.subset ht)
  apart := h.apart.sublist hv

theorem left (h : Ordered (v ++ w)) : Ordered v :=
  h.sublist (List.sublist_append_left v w)

theorem right (h : Ordered (v ++ w)) : Ordered w :=
  h.sublist (List.sublist_append_right v w)

theorem lt_of_mem (h : Ordered (v ++ w)) {t u : Token} (ht : t ∈ v) (hu : u ∈ w) :
    t.span.last < u.span.first :=
  (List.pairwise_append.mp h.apart).2.2 t ht u hu

end Ordered

namespace Span.Over

variable {s t : Span} {v w u : List Token}

theorem exists_first (h : s.Over w) : ∃ a ∈ w, s.first = a.span.first := by
  obtain ⟨a, ha, hfirst⟩ := Option.map_eq_some_iff.mp h.1
  exact ⟨a, List.mem_of_mem_head? ha, hfirst.symm⟩

theorem exists_last (h : s.Over w) : ∃ a ∈ w, s.last = a.span.last := by
  obtain ⟨a, ha, hlast⟩ := Option.map_eq_some_iff.mp h.2
  exact ⟨a, List.mem_of_mem_getLast? ha, hlast.symm⟩

theorem singleton (a : Token) : a.span.Over [a] :=
  ⟨rfl, rfl⟩

theorem first_le (h : s.Over w) (hw : Ordered w) {a : Token} (ha : a ∈ w) :
    s.first ≤ a.span.first := by
  cases w with
  | nil => cases ha
  | cons b w =>
      have hfirst : b.span.first = s.first := Option.some.inj h.1
      rw [← hfirst]
      rcases List.mem_cons.mp ha with rfl | ha
      · exact le_refl _
      · have hbefore := (List.pairwise_cons.mp hw.apart).1 a ha
        exact le_trans (hw.proper b List.mem_cons_self) (le_of_lt hbefore)

theorem le_last (h : s.Over w) (hw : Ordered w) {a : Token} (ha : a ∈ w) :
    a.span.last ≤ s.last := by
  obtain ⟨b, hb, hlast⟩ := Option.map_eq_some_iff.mp h.2
  obtain ⟨v, rfl⟩ := List.getLast?_eq_some_iff.mp hb
  rw [← hlast]
  rcases List.mem_append.mp ha with ha | ha
  · have hbefore := hw.lt_of_mem ha List.mem_cons_self
    exact le_trans (le_of_lt hbefore) (hw.proper b (by simp))
  · obtain rfl := List.mem_singleton.mp ha
    exact le_refl _

theorem first_le_last (h : s.Over w) (hw : Ordered w) : s.first ≤ s.last := by
  obtain ⟨a, ha, hfirst⟩ := h.exists_first
  rw [hfirst]
  exact le_trans (hw.proper a ha) (h.le_last hw ha)

theorem within (hs : s.Over v) (ht : t.Over w) (hw : Ordered w) (hv : v ⊆ w) : s.Within t := by
  obtain ⟨a, ha, hfirst⟩ := hs.exists_first
  obtain ⟨b, hb, hlast⟩ := hs.exists_last
  constructor
  · rw [hfirst]
    exact ht.first_le hw (hv ha)
  · rw [hlast]
    exact ht.le_last hw (hv hb)

theorem before (hs : s.Over v) (ht : t.Over w) (h : Ordered (v ++ w)) : s.last < t.first := by
  obtain ⟨a, ha, hlast⟩ := hs.exists_last
  obtain ⟨b, hb, hfirst⟩ := ht.exists_first
  rw [hlast, hfirst]
  exact h.lt_of_mem ha hb

/-- The spans over the beginning and over the end of some tokens merge into the span over all. -/
theorem merge (hs : s.Over v) (ht : t.Over w) (hv : v <+: u) (hw : w <:+ u) (h : Ordered u) :
    (s.merge t).Over u := by
  have hover : Span.Over ⟨s.first, t.last⟩ u := by
    constructor
    · obtain ⟨a, ha, hfirst⟩ := Option.map_eq_some_iff.mp hs.1
      obtain ⟨v', rfl⟩ := hv
      simp [List.head?_append, ha, hfirst]
    · obtain ⟨b, hb, hlast⟩ := Option.map_eq_some_iff.mp ht.2
      obtain ⟨w', rfl⟩ := hw
      simp [List.getLast?_append, hb, hlast]
  obtain ⟨a, ha, hlast⟩ := hs.exists_last
  obtain ⟨b, hb, hfirst⟩ := ht.exists_first
  have hle : s.first ≤ t.first := by
    rw [hfirst]
    exact hover.first_le h (hw.subset hb)
  have hle' : s.last ≤ t.last := by
    rw [hlast]
    exact hover.le_last h (hv.subset ha)
  rw [Span.merge, Position.earlier_of_le hle, Position.later_of_le hle']
  exact hover

end Span.Over

/-! ## Nodes and their parts -/

inductive Node where
  | stmt (s : Stmt)
  | block (b : Block)
  | expr (e : Expr)
  | ident (x : Ident)

/-- One piece of a node as it is written: a token of the node itself, any number of line ends, or a
child. -/
inductive Piece where
  | mark (kind : TokenKind)
  | lineEnds
  | node (n : Node)

def BinaryOp.mark : BinaryOp → TokenKind
  | add => .symbol .plus
  | sub => .symbol .minus
  | mul => .symbol .star
  | div => .symbol .slash
  | rem => .symbol .percent
  | equal => .symbol .equal
  | notEqual => .symbol .notEqual
  | less => .symbol .less
  | lessEqual => .symbol .lessEqual
  | greater => .symbol .greater
  | greaterEqual => .symbol .greaterEqual
  | and => .keyword .andWord
  | or => .keyword .orWord

def UnaryOp.mark : UnaryOp → TokenKind
  | not => .keyword .notWord
  | neg => .symbol .minus
  | len => .symbol .hash

namespace Piece

/-- A child between brackets. -/
def item (n : Node) : List Piece :=
  [.lineEnds, .node n, .lineEnds]

/-- Children with commas between them. -/
def separated : List Node → List Piece
  | [] => [.lineEnds]
  | n :: rest => item n ++ rest.flatMap fun m => .mark (.symbol .comma) :: item m

/-- Statements with line ends around them. -/
def lines (stmts : List Stmt) : List Piece :=
  .lineEnds :: stmts.flatMap fun s => [.node (.stmt s), .lineEnds]

/-- The part as a child. -/
def child? : Piece → Option Node
  | node n => some n
  | _ => none

end Piece

open Piece

def Expr.parts : Expr → List Piece
  | number _ n => [.mark (.number n)]
  | text _ s => [.mark (.text s)]
  | bool _ b => [.mark (.keyword (if b then .trueWord else .falseWord))]
  | none _ => [.mark (.keyword .noneWord)]
  | list _ items =>
    .mark (.symbol .leftBracket) :: (separated (items.map .expr) ++ [.mark (.symbol .rightBracket)])
  | name _ x => [.mark (.identifier x)]
  | call _ callee args =>
    .node (.ident callee) :: .mark (.symbol .leftParen) ::
      (separated (args.map .expr) ++ [.mark (.symbol .rightParen)])
  | builtin _ callee args =>
    .mark (.builtin callee) :: .mark (.symbol .leftParen) ::
      (separated (args.map .expr) ++ [.mark (.symbol .rightParen)])
  | index _ target position =>
    .node (.expr target) :: .mark (.symbol .leftBracket) ::
      (item (.expr position) ++ [.mark (.symbol .rightBracket)])
  | binary _ op left right => [.node (.expr left), .mark op.mark, .node (.expr right)]
  | unary _ op operand => [.mark op.mark, .node (.expr operand)]
  | paren _ inner =>
    .mark (.symbol .leftParen) :: (item (.expr inner) ++ [.mark (.symbol .rightParen)])

/-- What follows the first block of an `if`. -/
def Branches.parts : Branches → List Piece
  | done => []
  | otherwise body => [.lineEnds, .mark (.keyword .elseWord), .node (.block body)]
  | branch condition body rest =>
    .lineEnds :: .mark (.keyword .elseWord) :: .mark (.keyword .ifWord) ::
      .node (.expr condition) :: .node (.block body) :: rest.parts

def Stmt.parts : Stmt → List Piece
  | var _ name value =>
    [.mark (.keyword .varWord), .node (.ident name), .mark (.symbol .assign), .node (.expr value)]
  | assign _ name value => [.node (.ident name), .mark (.symbol .assign), .node (.expr value)]
  | func _ name params body =>
    .mark (.keyword .funcWord) :: .node (.ident name) :: .mark (.symbol .leftParen) ::
      (separated (params.map .ident) ++ [.mark (.symbol .rightParen), .node (.block body)])
  | choose _ (.branch condition body rest) =>
    .mark (.keyword .ifWord) :: .node (.expr condition) :: .node (.block body) :: rest.parts
  | choose _ _ => [.mark (.keyword .ifWord)]
  | loop _ condition body =>
    [.mark (.keyword .whileWord), .node (.expr condition), .node (.block body)]
  | giveBack _ none => [.mark (.keyword .returnWord)]
  | giveBack _ (some value) => [.mark (.keyword .returnWord), .node (.expr value)]
  | expr _ value => [.node (.expr value)]

def Block.parts (b : Block) : List Piece :=
  .mark (.symbol .leftBrace) :: (lines b.stmts ++ [.mark (.symbol .rightBrace)])

namespace Node

def span : Node → Span
  | stmt s => s.span
  | block b => b.span
  | expr e => e.span
  | ident x => x.span

/-- What a node is written as, in order. -/
def parts : Node → List Piece
  | stmt s => s.parts
  | block b => b.parts
  | expr e => e.parts
  | ident x => [.mark (.identifier x.name)]

/-- The nodes right below a node, in the order in which they are written. -/
def children (n : Node) : List Node :=
  n.parts.filterMap Piece.child?

end Node

/-- The node stands in the program, at some depth. -/
inductive Program.HasNode (p : Program) : Node → Prop where
  | top {s : Stmt} (hs : s ∈ p.stmts) : p.HasNode (.stmt s)
  | child {n m : Node} (hn : p.HasNode n) (hm : m ∈ n.children) : p.HasNode m

/-! ## Writing out -/

/-- The tokens are some parts written out one after the other, the children among them as `written`
says. -/
inductive Fills (written : List Token → Node → Prop) : List Token → List Piece → Prop where
  | nil : Fills written [] []
  | mark {t : Token} {w : List Token} {k : TokenKind} {ps : List Piece} (ht : t.kind = k)
      (h : Fills written w ps) : Fills written (t :: w) (.mark k :: ps)
  | lineEnds {v w : List Token} {ps : List Piece} (hv : ∀ t ∈ v, t.kind = .lineEnd)
      (h : Fills written w ps) : Fills written (v ++ w) (.lineEnds :: ps)
  | node {v w : List Token} {n : Node} {ps : List Piece} (hn : written v n)
      (h : Fills written w ps) : Fills written (v ++ w) (.node n :: ps)

/-- The tokens are a node written out, and its span runs over exactly these.  A number may have
signs in front that are part of it. -/
inductive Written : List Token → Node → Prop where
  | parts {w : List Token} {n : Node} (h : Fills Written w n.parts) (hspan : n.span.Over w) :
      Written w n
  | sign {t : Token} {w : List Token} {s : Span} {n : Number} (ht : t.kind = .symbol .minus)
      (h : Written w (.expr (.number s n))) :
      Written (t :: w) (.expr (.number ⟨t.span.first, s.last⟩ n.opposite))

namespace Fills

variable {written : List Token → Node → Prop} {v w : List Token} {ps qs : List Piece} {n : Node}

theorem append (h : Fills written v ps) (h' : Fills written w qs) :
    Fills written (v ++ w) (ps ++ qs) := by
  induction h with
  | nil => exact h'
  | mark ht _ ih => exact .mark ht ih
  | lineEnds hv _ ih =>
      rw [List.append_assoc]
      exact .lineEnds hv ih
  | node hn _ ih =>
      rw [List.append_assoc]
      exact .node hn ih

theorem one_mark {t : Token} {k : TokenKind} (ht : t.kind = k) : Fills written [t] [.mark k] :=
  .mark ht .nil

theorem one_node (hn : written w n) : Fills written w [.node n] := by
  have h := Fills.node hn .nil
  rwa [List.append_nil] at h

theorem only_lineEnds (hv : ∀ t ∈ v, t.kind = .lineEnd) : Fills written v [.lineEnds] := by
  have h : Fills written (v ++ []) [.lineEnds] := .lineEnds hv .nil
  rwa [List.append_nil] at h

/-- More line ends in front of line ends. -/
theorem after_lineEnds (hv : ∀ t ∈ v, t.kind = .lineEnd) (h : Fills written w (.lineEnds :: ps)) :
    Fills written (v ++ w) (.lineEnds :: ps) := by
  cases h with
  | @lineEnds v' w' _ hv' h =>
      rw [← List.append_assoc]
      exact .lineEnds (List.forall_mem_append.mpr ⟨hv, hv'⟩) h

theorem exists_of_mem (h : Fills written w ps) (hn : n ∈ ps.filterMap Piece.child?) :
    ∃ v, v <:+: w ∧ written v n := by
  induction h with
  | nil => cases hn
  | @mark t _ _ _ _ _ ih =>
      obtain ⟨v, hv, hwritten⟩ := ih hn
      exact ⟨v, hv.trans (List.suffix_cons t _).isInfix, hwritten⟩
  | @lineEnds u _ _ _ _ ih =>
      obtain ⟨v, hv, hwritten⟩ := ih hn
      exact ⟨v, hv.trans (List.suffix_append u _).isInfix, hwritten⟩
  | @node u _ m _ hm _ ih =>
      rcases List.mem_cons.mp hn with rfl | hn
      · exact ⟨u, (List.prefix_append u _).isInfix, hm⟩
      · obtain ⟨v, hv, hwritten⟩ := ih hn
        exact ⟨v, hv.trans (List.suffix_append u _).isInfix, hwritten⟩

/-- Children that follow each other in the parts follow each other in the text. -/
theorem pairwise (hover : ∀ v n, written v n → n.span.Over v) (h : Fills written w ps)
    (hw : Ordered w) :
    (ps.filterMap Piece.child?).Pairwise fun m n => m.span.last < n.span.first := by
  induction h with
  | nil => exact .nil
  | mark _ _ ih => exact ih (hw.right (v := [_]))
  | lineEnds _ _ ih => exact ih hw.right
  | @node u v m _ hm hrest ih =>
      refine List.Pairwise.cons ?_ (ih hw.right)
      intro n hn
      obtain ⟨v', hv', hn'⟩ := hrest.exists_of_mem hn
      apply (hover u m hm).before (hover v' n hn')
      exact hw.sublist (hv'.sublist.append_left u)

end Fills

namespace Written

variable {w : List Token} {n : Node}

theorem covers {w : List Token} {n : Node} (h : Written w n) : n.span.Over w := by
  match h with
  | .parts _ hspan => exact hspan
  | .sign (w := v) _ h =>
      -- the number has a token of its own, so the sign is not the last one
      have hlast := (covers h).2
      cases v with
      | nil => cases hlast
      | cons => exact ⟨rfl, hlast⟩

theorem exists_of_mem_children {m : Node} (h : Written w n) (hm : m ∈ n.children) :
    ∃ v, v <:+: w ∧ Written v m := by
  cases h with
  | parts h _ => exact h.exists_of_mem hm
  | sign _ _ => cases hm

theorem pairwise_children (h : Written w n) (hw : Ordered w) :
    n.children.Pairwise fun m m' => m.span.last < m'.span.first := by
  cases h with
  | parts h _ => exact h.pairwise (fun _ _ => covers) hw
  | sign _ _ => exact .nil

theorem within_of_mem_children {m : Node} (h : Written w n) (hw : Ordered w)
    (hm : m ∈ n.children) : m.span.Within n.span := by
  obtain ⟨v, hv, hwritten⟩ := h.exists_of_mem_children hm
  exact hwritten.covers.within h.covers hw hv.subset

end Written

end KitchenScript
