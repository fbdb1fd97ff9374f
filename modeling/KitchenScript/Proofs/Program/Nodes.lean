import KitchenScript.Program.Stats
import KitchenScript.Proofs.Grammar.Tree

/-!
# The nodes of a program

All statements and all expressions of a program, at every depth, as two lists.  What is said of
every node of a program is said of the members of these lists, and what is counted is their length.

A tree without spans has the nodes of the tree without their spans.
-/

namespace KitchenScript

namespace Expr

mutual

/-- The expression and all expressions inside it. -/
def nodes : Expr → List Expr
  | number s n => [.number s n]
  | text s t => [.text s t]
  | bool s b => [.bool s b]
  | none s => [.none s]
  | list s items => .list s items :: nodesAll items
  | name s x => [.name s x]
  | call s callee args => .call s callee args :: nodesAll args
  | builtin s callee args => .builtin s callee args :: nodesAll args
  | index s target position => .index s target position :: (target.nodes ++ position.nodes)
  | binary s op left right => .binary s op left right :: (left.nodes ++ right.nodes)
  | unary s op operand => .unary s op operand :: operand.nodes
  | paren s inner => .paren s inner :: inner.nodes

def nodesAll : List Expr → List Expr
  | [] => []
  | e :: rest => e.nodes ++ nodesAll rest

end

mutual

theorem nodes_bare (e : Expr) : e.bare.nodes = e.nodes.map bare := by
  match e with
  | .number _ _ | .text _ _ | .bool _ _ | .none _ | .name _ _ => rfl
  | .list _ items | .call _ _ items | .builtin _ _ items =>
      simp [bare, nodes, nodesAll_bareAll items]
  | .index _ a b | .binary _ _ a b => simp [bare, nodes, nodes_bare a, nodes_bare b]
  | .unary _ _ a | .paren _ a => simp [bare, nodes, nodes_bare a]

theorem nodesAll_bareAll (items : List Expr) :
    nodesAll (bareAll items) = (nodesAll items).map bare := by
  match items with
  | [] => rfl
  | e :: rest => simp [bareAll, nodesAll, nodes_bare e, nodesAll_bareAll rest]

end

mutual

theorem nesting_bare (e : Expr) : e.bare.nesting = e.nesting := by
  match e with
  | .number _ _ | .text _ _ | .bool _ _ | .none _ | .name _ _ => rfl
  | .list _ items | .call _ _ items | .builtin _ _ items =>
      simp [bare, nesting, nestingAll_bareAll items]
  | .index _ a b | .binary _ _ a b => simp [bare, nesting, nesting_bare a, nesting_bare b]
  | .unary _ _ a | .paren _ a => simp [bare, nesting, nesting_bare a]

theorem nestingAll_bareAll (items : List Expr) : nestingAll (bareAll items) = nestingAll items := by
  match items with
  | [] => rfl
  | e :: rest => simp [bareAll, nestingAll, nesting_bare e, nestingAll_bareAll rest]

end

/-! ## Signs -/

/-- Signing an operand puts a node above it, or changes the number that it is. -/
theorem signed_cases (op : UnaryOp) (operand : Expr) :
    signed op operand = .unary .blank op operand ∨
      ∃ s n, operand = .number s n ∧ signed op operand = .number s n.opposite := by
  cases op with
  | neg =>
      cases operand with
      | number s n => exact .inr ⟨s, n, rfl, rfl⟩
      | _ => exact .inl rfl
  | not | len => exact .inl rfl

mutual

theorem nesting_folded_le (e : Expr) : e.folded.nesting ≤ e.nesting := by
  match e with
  | .number _ _ | .text _ _ | .bool _ _ | .none _ | .name _ _ => exact Nat.le_refl 0
  | .list _ items | .call _ _ items | .builtin _ _ items => exact nestingAll_foldedAll_le items
  | .index _ a b =>
      have ha := nesting_folded_le a
      have hb := nesting_folded_le b
      simp only [folded, nesting]
      omega
  | .binary _ _ a b =>
      have ha := nesting_folded_le a
      have hb := nesting_folded_le b
      simp only [folded, nesting]
      omega
  | .unary _ op a =>
      have ha := nesting_folded_le a
      rw [folded]
      rcases signed_cases op a.folded with h | ⟨s, n, -, h⟩
      · rw [h]
        simp only [nesting]
        omega
      · rw [h]
        exact Nat.zero_le _
  | .paren _ a =>
      have ha := nesting_folded_le a
      simp only [folded, nesting]
      omega

theorem nestingAll_foldedAll_le (items : List Expr) :
    nestingAll (foldedAll items) ≤ nestingAll items := by
  match items with
  | [] => exact Nat.le_refl 0
  | e :: rest =>
      have he := nesting_folded_le e
      have hrest := nestingAll_foldedAll_le rest
      simp only [foldedAll, nestingAll]
      omega

end

/-- Does the node join conditions? -/
def isConnective : Expr → Bool
  | binary _ op _ _ => op == .and || op == .or
  | _ => false

end Expr

namespace Branches

def conditions : Branches → List Expr
  | done => []
  | otherwise _ => []
  | branch condition _ rest => condition :: rest.conditions

end Branches

namespace Stmt

mutual

/-- The statement and all statements inside it. -/
def nodes : Stmt → List Stmt
  | var s name value => [.var s name value]
  | assign s name value => [.assign s name value]
  | func s name params body => .func s name params body :: nodesOfBlock body
  | choose s branches => .choose s branches :: nodesOfBranches branches
  | loop s condition body => .loop s condition body :: nodesOfBlock body
  | giveBack s value => [.giveBack s value]
  | expr s value => [.expr s value]

def nodesAll : List Stmt → List Stmt
  | [] => []
  | s :: rest => s.nodes ++ nodesAll rest

def nodesOfBlock : Block → List Stmt
  | .mk _ stmts => nodesAll stmts

def nodesOfBranches : Branches → List Stmt
  | .done => []
  | .otherwise body => nodesOfBlock body
  | .branch _ body rest => nodesOfBlock body ++ nodesOfBranches rest

end

/-- The whole expressions that stand in the statement itself, not in a block of it. -/
def exprs : Stmt → List Expr
  | var _ _ value => [value]
  | assign _ _ value => [value]
  | func _ _ _ _ => []
  | choose _ branches => branches.conditions
  | loop _ condition _ => [condition]
  | giveBack _ value => value.toList
  | expr _ value => [value]

theorem mem_nodes_self (s : Stmt) : s ∈ s.nodes := by
  cases s <;> simp [nodes]

theorem nodesOfBlock_eq (body : Block) : nodesOfBlock body = nodesAll body.stmts := by
  cases body
  rfl

mutual

theorem nodes_bare (s : Stmt) : s.bare.nodes = s.nodes.map bare := by
  match s with
  | .var _ _ _ | .assign _ _ _ | .giveBack _ _ | .expr _ _ => rfl
  | .func _ _ _ body | .loop _ _ body => simp [bare, nodes, nodesOfBlock_bareBlock body]
  | .choose _ branches => simp [bare, nodes, nodesOfBranches_bareBranches branches]

theorem nodesAll_bareAll (stmts : List Stmt) :
    nodesAll (bareAll stmts) = (nodesAll stmts).map bare := by
  match stmts with
  | [] => rfl
  | s :: rest => simp [bareAll, nodesAll, nodes_bare s, nodesAll_bareAll rest]

theorem nodesOfBlock_bareBlock (body : Block) :
    nodesOfBlock (bareBlock body) = (nodesOfBlock body).map bare := by
  match body with
  | .mk _ stmts => simp [bareBlock, nodesOfBlock, nodesAll_bareAll stmts]

theorem nodesOfBranches_bareBranches (branches : Branches) :
    nodesOfBranches (bareBranches branches) = (nodesOfBranches branches).map bare := by
  match branches with
  | .done => rfl
  | .otherwise body => simp [bareBranches, nodesOfBranches, nodesOfBlock_bareBlock body]
  | .branch _ body rest =>
      simp [bareBranches, nodesOfBranches, nodesOfBlock_bareBlock body,
        nodesOfBranches_bareBranches rest]

end

mutual

theorem blockNesting_bare (s : Stmt) : s.bare.blockNesting = s.blockNesting := by
  match s with
  | .var _ _ _ | .assign _ _ _ | .giveBack _ _ | .expr _ _ => rfl
  | .func _ _ _ body | .loop _ _ body => exact nestingOfBlock_bareBlock body
  | .choose _ branches => exact nestingOfBranches_bareBranches branches

theorem blockNestingAll_bareAll (stmts : List Stmt) :
    blockNestingAll (bareAll stmts) = blockNestingAll stmts := by
  match stmts with
  | [] => rfl
  | s :: rest =>
      simp [bareAll, blockNestingAll, blockNesting_bare s, blockNestingAll_bareAll rest]

theorem nestingOfBlock_bareBlock (body : Block) :
    nestingOfBlock (bareBlock body) = nestingOfBlock body := by
  match body with
  | .mk _ stmts => simp [bareBlock, nestingOfBlock, blockNestingAll_bareAll stmts]

theorem nestingOfBranches_bareBranches (branches : Branches) :
    nestingOfBranches (bareBranches branches) = nestingOfBranches branches := by
  match branches with
  | .done => rfl
  | .otherwise body => exact nestingOfBlock_bareBlock body
  | .branch _ body rest =>
      simp [bareBranches, nestingOfBranches, nestingOfBlock_bareBlock body,
        nestingOfBranches_bareBranches rest]

end

mutual

theorem blockNesting_folded (s : Stmt) : s.folded.blockNesting = s.blockNesting := by
  match s with
  | .var _ _ _ | .assign _ _ _ | .giveBack _ _ | .expr _ _ => rfl
  | .func _ _ _ body | .loop _ _ body => exact nestingOfBlock_foldedBlock body
  | .choose _ branches => exact nestingOfBranches_foldedBranches branches

theorem blockNestingAll_foldedAll (stmts : List Stmt) :
    blockNestingAll (foldedAll stmts) = blockNestingAll stmts := by
  match stmts with
  | [] => rfl
  | s :: rest =>
      simp [foldedAll, blockNestingAll, blockNesting_folded s, blockNestingAll_foldedAll rest]

theorem nestingOfBlock_foldedBlock (body : Block) :
    nestingOfBlock (foldedBlock body) = nestingOfBlock body := by
  match body with
  | .mk _ stmts => simp [foldedBlock, nestingOfBlock, blockNestingAll_foldedAll stmts]

theorem nestingOfBranches_foldedBranches (branches : Branches) :
    nestingOfBranches (foldedBranches branches) = nestingOfBranches branches := by
  match branches with
  | .done => rfl
  | .otherwise body => exact nestingOfBlock_foldedBlock body
  | .branch _ body rest =>
      simp [foldedBranches, nestingOfBranches, nestingOfBlock_foldedBlock body,
        nestingOfBranches_foldedBranches rest]

end

theorem conditions_bareBranches (branches : Branches) :
    (bareBranches branches).conditions = branches.conditions.map Expr.bare := by
  cases branches with
  | done | otherwise _ => rfl
  | branch condition _ rest =>
      simp [bareBranches, Branches.conditions, conditions_bareBranches rest]

theorem exprs_bare (s : Stmt) : s.bare.exprs = s.exprs.map Expr.bare := by
  match s with
  | .var _ _ _ | .assign _ _ _ | .func _ _ _ _ | .loop _ _ _ | .expr _ _ => rfl
  | .choose _ branches => exact conditions_bareBranches branches
  | .giveBack _ none | .giveBack _ (some _) => rfl

/-- All whole expressions of some statements, at every depth. -/
def exprsAll (stmts : List Stmt) : List Expr :=
  (nodesAll stmts).flatMap exprs

end Stmt

namespace Program

/-- All statements of a program, at every depth. -/
def stmtNodes (p : Program) : List Stmt :=
  Stmt.nodesAll p.stmts

/-- The whole expressions of a program: each stands in a statement and in no other expression. -/
def exprs (p : Program) : List Expr :=
  Stmt.exprsAll p.stmts

/-- All expressions of a program, at every depth. -/
def exprNodes (p : Program) : List Expr :=
  p.exprs.flatMap Expr.nodes

end Program

end KitchenScript
