import KitchenScript.Program.Stats
import KitchenScript.Proofs.Grammar.Tree
import KitchenScript.Proofs.Token.Seam

/-!
# Trees with other spans

A relayout changes spans and respects merging.  Moving a text further down is one, and making all
spans blank is another.  It acts on tokens and on every kind of tree; since a reader forms the
spans of a tree by merging those of tokens, it can act before the reading or after it.
-/

namespace KitchenScript

/-- A change of spans that respects merging. -/
structure Relayout where
  place : Span → Span
  place_merge : ∀ a b : Span, place (a.merge b) = (place a).merge (place b)

namespace Relayout

/-- All spans become blank. -/
def blank : Relayout where
  place _ := .blank
  place_merge _ _ := by decide

@[simp] theorem place_blank (s : Span) : Relayout.blank.place s = .blank := rfl

end Relayout

theorem Position.down_le_iff (k : Nat) (p q : Position) : p.down k ≤ q.down k ↔ p ≤ q := by
  have hline : (p.line + k == q.line + k) = (p.line == q.line) := by
    rw [Bool.eq_iff_iff]
    simp
  have hsame : (p.down k).isUpTo (q.down k) = p.isUpTo q := by
    unfold Position.isUpTo Position.down
    rw [hline, decide_eq_decide.mpr Nat.add_lt_add_iff_right]
  change (p.down k).isUpTo (q.down k) = true ↔ p.isUpTo q = true
  rw [hsame]

theorem Position.down_earlier (k : Nat) (p q : Position) :
    (p.earlier q).down k = (p.down k).earlier (q.down k) := by
  simp only [Position.earlier, Position.down_le_iff]
  split <;> rfl

theorem Position.down_later (k : Nat) (p q : Position) :
    (p.later q).down k = (p.down k).later (q.down k) := by
  simp only [Position.later, Position.down_le_iff]
  split <;> rfl

namespace Relayout

/-- All spans move `k` lines down. -/
def down (k : Nat) : Relayout where
  place := Span.down k
  place_merge a b := by
    simp only [Span.down, Span.merge, Position.down_earlier, Position.down_later]

end Relayout

namespace Token

def respan (r : Relayout) (t : Token) : Token :=
  ⟨t.kind, r.place t.span⟩

@[simp] theorem kind_respan (r : Relayout) (t : Token) : (t.respan r).kind = t.kind := rfl

@[simp] theorem span_respan (r : Relayout) (t : Token) : (t.respan r).span = r.place t.span := rfl

@[simp] theorem map_kind_respan (r : Relayout) (tokens : List Token) :
    (tokens.map (respan r)).map kind = tokens.map kind := by
  simp

/-- Blank tokens are known by their kinds. -/
theorem map_respan_blank (tokens : List Token) :
    tokens.map (respan .blank) = (tokens.map kind).map fun k => ⟨k, .blank⟩ := by
  simp [respan]

end Token

namespace Ident

def respan (r : Relayout) (x : Ident) : Ident :=
  ⟨x.name, r.place x.span⟩

@[simp] theorem name_respan (r : Relayout) (x : Ident) : (x.respan r).name = x.name := rfl

theorem respan_blank (x : Ident) : x.respan .blank = x.bare := rfl

end Ident

namespace Expr

mutual

def respan (r : Relayout) : Expr → Expr
  | number s n => .number (r.place s) n
  | text s t => .text (r.place s) t
  | bool s b => .bool (r.place s) b
  | none s => .none (r.place s)
  | list s items => .list (r.place s) (respanAll r items)
  | name s x => .name (r.place s) x
  | call s callee args => .call (r.place s) (callee.respan r) (respanAll r args)
  | builtin s callee args => .builtin (r.place s) callee (respanAll r args)
  | index s target position => .index (r.place s) (target.respan r) (position.respan r)
  | binary s op left right => .binary (r.place s) op (left.respan r) (right.respan r)
  | unary s op operand => .unary (r.place s) op (operand.respan r)
  | paren s inner => .paren (r.place s) (inner.respan r)

def respanAll (r : Relayout) : List Expr → List Expr
  | [] => []
  | e :: rest => e.respan r :: respanAll r rest

end

@[simp] theorem span_respan (r : Relayout) (e : Expr) : (e.respan r).span = r.place e.span := by
  cases e <;> rfl

@[simp] theorem length_respanAll (r : Relayout) (items : List Expr) :
    (respanAll r items).length = items.length := by
  induction items with
  | nil => rfl
  | cons e rest ih => simp [respanAll, ih]

theorem respan_binaryExpr (r : Relayout) (left : Expr) (op : BinaryOp) (right : Expr) :
    (Parser.binaryExpr left op right).respan r =
      Parser.binaryExpr (left.respan r) op (right.respan r) := by
  simp [Parser.binaryExpr, respan, r.place_merge]

theorem respan_unaryExpr (r : Relayout) (start : Span) (op : UnaryOp) (operand : Expr) :
    (Parser.unaryExpr start op operand).respan r =
      Parser.unaryExpr (r.place start) op (operand.respan r) := by
  cases op <;> cases operand <;> simp [Parser.unaryExpr, respan, Expr.span, r.place_merge]

mutual

theorem respan_blank (e : Expr) : e.respan .blank = e.bare := by
  match e with
  | .number _ _ | .text _ _ | .bool _ _ | .none _ | .name _ _ => rfl
  | .list _ items => simp [respan, bare, respanAll_blank items]
  | .call _ callee args =>
      simp [respan, bare, respanAll_blank args, Ident.respan_blank]
  | .builtin _ callee args => simp [respan, bare, respanAll_blank args]
  | .index _ target position =>
      simp [respan, bare, respan_blank target, respan_blank position]
  | .binary _ op left right =>
      simp [respan, bare, respan_blank left, respan_blank right]
  | .unary _ op operand => simp [respan, bare, respan_blank operand]
  | .paren _ inner => simp [respan, bare, respan_blank inner]

theorem respanAll_blank (items : List Expr) : respanAll .blank items = bareAll items := by
  match items with
  | [] => rfl
  | e :: rest => rw [respanAll, bareAll, respan_blank e, respanAll_blank rest]

end

end Expr

namespace Stmt

mutual

def respan (r : Relayout) : Stmt → Stmt
  | var s name value => .var (r.place s) (name.respan r) (value.respan r)
  | assign s name value => .assign (r.place s) (name.respan r) (value.respan r)
  | func s name params body =>
    .func (r.place s) (name.respan r) (params.map (Ident.respan r)) (respanBlock r body)
  | choose s branches => .choose (r.place s) (respanBranches r branches)
  | loop s condition body => .loop (r.place s) (condition.respan r) (respanBlock r body)
  | giveBack s value => .giveBack (r.place s) (value.map (Expr.respan r))
  | expr s value => .expr (r.place s) (value.respan r)

def respanAll (r : Relayout) : List Stmt → List Stmt
  | [] => []
  | s :: rest => s.respan r :: respanAll r rest

def respanBlock (r : Relayout) : Block → Block
  | .mk s stmts => .mk (r.place s) (respanAll r stmts)

def respanBranches (r : Relayout) : Branches → Branches
  | .done => .done
  | .otherwise body => .otherwise (respanBlock r body)
  | .branch condition body rest =>
    .branch (condition.respan r) (respanBlock r body) (respanBranches r rest)

end

theorem respanAll_eq_map (r : Relayout) (stmts : List Stmt) :
    respanAll r stmts = stmts.map (respan r) := by
  induction stmts with
  | nil => rfl
  | cons s rest ih => rw [respanAll, ih, List.map_cons]

@[simp] theorem length_respanAll (r : Relayout) (stmts : List Stmt) :
    (respanAll r stmts).length = stmts.length := by
  rw [respanAll_eq_map, List.length_map]

@[simp] theorem span_respanBlock (r : Relayout) (b : Block) :
    (respanBlock r b).span = r.place b.span := by
  cases b
  rfl

theorem lastSpan?_respanBranches (r : Relayout) (bs : Branches) :
    (respanBranches r bs).lastSpan? = bs.lastSpan?.map r.place := by
  cases bs with
  | done => rfl
  | otherwise body => simp [respanBranches, Branches.lastSpan?]
  | branch condition body rest =>
      rw [respanBranches, Branches.lastSpan?, Branches.lastSpan?,
        lastSpan?_respanBranches r rest]
      cases rest.lastSpan? <;> simp

mutual

theorem respan_blank (s : Stmt) : s.respan .blank = s.bare := by
  match s with
  | .var _ _ value | .assign _ _ value | .expr _ value =>
      simp [respan, bare, Expr.respan_blank, Ident.respan_blank]
  | .func _ name params body =>
      have hparams : params.map (Ident.respan .blank) = params.map Ident.bare := rfl
      simp [respan, bare, hparams, respanBlock_blank body, Ident.respan_blank]
  | .choose _ branches => simp [respan, bare, respanBranches_blank branches]
  | .loop _ condition body =>
      simp [respan, bare, Expr.respan_blank, respanBlock_blank body]
  | .giveBack _ (some value) => simp [respan, bare, Expr.respan_blank]
  | .giveBack _ none => rfl

theorem respanAll_blank (stmts : List Stmt) : respanAll .blank stmts = bareAll stmts := by
  match stmts with
  | [] => rfl
  | s :: rest => rw [respanAll, bareAll, respan_blank s, respanAll_blank rest]

theorem respanBlock_blank (b : Block) : respanBlock .blank b = bareBlock b := by
  match b with
  | .mk _ stmts => rw [respanBlock, bareBlock, respanAll_blank stmts]; rfl

theorem respanBranches_blank (bs : Branches) : respanBranches .blank bs = bareBranches bs := by
  match bs with
  | .done => rfl
  | .otherwise body => rw [respanBranches, bareBranches, respanBlock_blank body]
  | .branch condition body rest =>
      rw [respanBranches, bareBranches, Expr.respan_blank, respanBlock_blank body,
        respanBranches_blank rest]

end

end Stmt

namespace Stats

/-! ## Figures do not depend on spans -/

mutual

theorem ofStmt_respan (r : Relayout) (s : Stmt) : ofStmt (s.respan r) = ofStmt s := by
  match s with
  | .var _ _ _ | .assign _ _ _ | .giveBack _ _ | .expr _ _ => rfl
  | .func _ name params body =>
      simp only [Stmt.respan, ofStmt, ofBlock_respan r body, List.length_map]
  | .choose _ branches => simp only [Stmt.respan, ofStmt, ofBranches_respan r branches]
  | .loop _ condition body => simp only [Stmt.respan, ofStmt, ofBlock_respan r body]

theorem ofStmts_respan (r : Relayout) (stmts : List Stmt) :
    ofStmts (Stmt.respanAll r stmts) = ofStmts stmts := by
  match stmts with
  | [] => rfl
  | s :: rest => rw [Stmt.respanAll, ofStmts, ofStmts, ofStmt_respan r s, ofStmts_respan r rest]

theorem ofBlock_respan (r : Relayout) (b : Block) : ofBlock (Stmt.respanBlock r b) = ofBlock b := by
  match b with
  | .mk _ stmts => rw [Stmt.respanBlock, ofBlock, ofBlock, ofStmts_respan r stmts]

theorem ofBranches_respan (r : Relayout) (bs : Branches) :
    ofBranches (Stmt.respanBranches r bs) = ofBranches bs := by
  match bs with
  | .done => rfl
  | .otherwise body => rw [Stmt.respanBranches, ofBranches, ofBranches, ofBlock_respan r body]
  | .branch condition body rest =>
      rw [Stmt.respanBranches, ofBranches, ofBranches, ofBlock_respan r body,
        ofBranches_respan r rest]

end

end Stats

end KitchenScript
