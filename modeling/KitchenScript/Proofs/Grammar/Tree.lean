import KitchenScript.Program.Statement

/-!
# Trees without spans

Two trees that were read from differently laid out texts differ in their spans only.  `bare` puts
the same span everywhere, so that equality of bare trees is equality up to spans.

The reader takes a minus in front of a number into the number.  `folded` does the same to a tree
in which every sign still has a node of its own.  The nesting of a tree counts those nodes too, so
it is always taken before folding.
-/

namespace KitchenScript

namespace Span

/-- The one span of bare trees. -/
def blank : Span :=
  .point .start

end Span

namespace Ident

def bare (x : Ident) : Ident :=
  ⟨x.name, .blank⟩

end Ident

namespace Expr

mutual

/-- The expression with all spans made blank. -/
def bare : Expr → Expr
  | number _ n => .number .blank n
  | text _ s => .text .blank s
  | bool _ b => .bool .blank b
  | none _ => .none .blank
  | list _ items => .list .blank (bareAll items)
  | name _ x => .name .blank x
  | call _ callee args => .call .blank callee.bare (bareAll args)
  | builtin _ callee args => .builtin .blank callee (bareAll args)
  | index _ target position => .index .blank target.bare position.bare
  | binary _ op left right => .binary .blank op left.bare right.bare
  | unary _ op operand => .unary .blank op operand.bare
  | paren _ inner => .paren .blank inner.bare

def bareAll : List Expr → List Expr
  | [] => []
  | e :: rest => e.bare :: bareAll rest

end

/-- A sign in front of an operand; a minus in front of a number becomes part of it. -/
def signed (op : UnaryOp) (operand : Expr) : Expr :=
  match op, operand with
  | .neg, .number s n => .number s n.opposite
  | op, operand => .unary .blank op operand

mutual

/-- The expression with every minus in front of a number taken into the number. -/
def folded : Expr → Expr
  | number s n => .number s n
  | text s t => .text s t
  | bool s b => .bool s b
  | none s => .none s
  | list s items => .list s (foldedAll items)
  | name s x => .name s x
  | call s callee args => .call s callee (foldedAll args)
  | builtin s callee args => .builtin s callee (foldedAll args)
  | index s target position => .index s target.folded position.folded
  | binary s op left right => .binary s op left.folded right.folded
  | unary _ op operand => signed op operand.folded
  | paren s inner => .paren s inner.folded

def foldedAll : List Expr → List Expr
  | [] => []
  | e :: rest => e.folded :: foldedAll rest

end

mutual

/-- How many levels of brackets and signs lie inside each other. -/
def nesting : Expr → Nat
  | number _ _ => 0
  | text _ _ => 0
  | bool _ _ => 0
  | none _ => 0
  | list _ items => nestingAll items
  | name _ _ => 0
  | call _ _ args => nestingAll args
  | builtin _ _ args => nestingAll args
  | index _ target position => max target.nesting (position.nesting + 1)
  | binary _ _ left right => max left.nesting right.nesting
  | unary _ _ operand => operand.nesting + 1
  | paren _ inner => inner.nesting + 1

def nestingAll : List Expr → Nat
  | [] => 0
  | e :: rest => max (e.nesting + 1) (nestingAll rest)

end

@[simp] theorem length_foldedAll (items : List Expr) : (foldedAll items).length = items.length := by
  induction items with
  | nil => rfl
  | cons e rest ih => simp [foldedAll, ih]

@[simp] theorem length_bareAll (items : List Expr) : (bareAll items).length = items.length := by
  induction items with
  | nil => rfl
  | cons e rest ih => simp [bareAll, ih]

theorem bare_unaryExpr (start : Span) (op : UnaryOp) (operand : Expr) :
    (Parser.unaryExpr start op operand).bare = signed op operand.bare := by
  cases op <;> cases operand <;> simp [Parser.unaryExpr, bare, signed]

theorem bare_binaryExpr (left : Expr) (op : BinaryOp) (right : Expr) :
    (Parser.binaryExpr left op right).bare = .binary .blank op left.bare right.bare := by
  simp [Parser.binaryExpr, bare]

end Expr

namespace Stmt

mutual

/-- The statement with all spans made blank. -/
def bare : Stmt → Stmt
  | var _ name value => .var .blank name.bare value.bare
  | assign _ name value => .assign .blank name.bare value.bare
  | func _ name params body => .func .blank name.bare (params.map Ident.bare) (bareBlock body)
  | choose _ branches => .choose .blank (bareBranches branches)
  | loop _ condition body => .loop .blank condition.bare (bareBlock body)
  | giveBack _ value => .giveBack .blank (value.map Expr.bare)
  | expr _ value => .expr .blank value.bare

def bareAll : List Stmt → List Stmt
  | [] => []
  | s :: rest => s.bare :: bareAll rest

def bareBlock : Block → Block
  | .mk _ stmts => .mk .blank (bareAll stmts)

def bareBranches : Branches → Branches
  | .done => .done
  | .otherwise body => .otherwise (bareBlock body)
  | .branch condition body rest => .branch condition.bare (bareBlock body) (bareBranches rest)

end

mutual

/-- The statement with the expressions in it folded. -/
def folded : Stmt → Stmt
  | var s name value => .var s name value.folded
  | assign s name value => .assign s name value.folded
  | func s name params body => .func s name params (foldedBlock body)
  | choose s branches => .choose s (foldedBranches branches)
  | loop s condition body => .loop s condition.folded (foldedBlock body)
  | giveBack s value => .giveBack s (value.map Expr.folded)
  | expr s value => .expr s value.folded

def foldedAll : List Stmt → List Stmt
  | [] => []
  | s :: rest => s.folded :: foldedAll rest

def foldedBlock : Block → Block
  | .mk s stmts => .mk s (foldedAll stmts)

def foldedBranches : Branches → Branches
  | .done => .done
  | .otherwise body => .otherwise (foldedBlock body)
  | .branch condition body rest =>
    .branch condition.folded (foldedBlock body) (foldedBranches rest)

end

mutual

/-- How many blocks lie inside each other in a statement. -/
def blockNesting : Stmt → Nat
  | var _ _ _ => 0
  | assign _ _ _ => 0
  | func _ _ _ body => nestingOfBlock body
  | choose _ branches => nestingOfBranches branches
  | loop _ _ body => nestingOfBlock body
  | giveBack _ _ => 0
  | expr _ _ => 0

def blockNestingAll : List Stmt → Nat
  | [] => 0
  | s :: rest => max s.blockNesting (blockNestingAll rest)

def nestingOfBlock : Block → Nat
  | .mk _ stmts => blockNestingAll stmts + 1

def nestingOfBranches : Branches → Nat
  | .done => 0
  | .otherwise body => nestingOfBlock body
  | .branch _ body rest => max (nestingOfBlock body) (nestingOfBranches rest)

end

end Stmt

namespace Program

/-- The program with all spans made blank. -/
def bare (p : Program) : Program :=
  ⟨.blank, Stmt.bareAll p.stmts⟩

end Program

end KitchenScript
