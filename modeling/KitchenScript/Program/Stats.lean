import KitchenScript.Program.Tree

/-!
# Size of a program

The figures by which a solution is graded.  Statements are counted at every depth, inside function
bodies and blocks as well.
-/

namespace KitchenScript

structure Stats where
  statements : Nat
  topLevelStatements : Nat
  functions : Nat
  maxParams : Nat
  longestFunction : Nat
deriving DecidableEq

namespace Stats

def empty : Stats :=
  ⟨0, 0, 0, 0, 0⟩

/-- Figures of two stretches of a program taken together. -/
def join (a b : Stats) : Stats where
  statements := a.statements + b.statements
  topLevelStatements := a.topLevelStatements + b.topLevelStatements
  functions := a.functions + b.functions
  maxParams := max a.maxParams b.maxParams
  longestFunction := max a.longestFunction b.longestFunction

mutual

/-- The figures of one statement with all that is inside it. -/
def ofStmt : Stmt → Stats
  | .func _ _ params body =>
    let inner := ofBlock body
    { statements := inner.statements + 1
      topLevelStatements := 0
      functions := inner.functions + 1
      maxParams := max params.length inner.maxParams
      longestFunction := max inner.statements inner.longestFunction }
  | .choose _ branches =>
    let inner := ofBranches branches
    { inner with statements := inner.statements + 1 }
  | .loop _ _ body =>
    let inner := ofBlock body
    { inner with statements := inner.statements + 1 }
  | .var _ _ _ => { empty with statements := 1 }
  | .assign _ _ _ => { empty with statements := 1 }
  | .giveBack _ _ => { empty with statements := 1 }
  | .expr _ _ => { empty with statements := 1 }

def ofStmts : List Stmt → Stats
  | [] => empty
  | s :: rest => (ofStmt s).join (ofStmts rest)

def ofBlock : Block → Stats
  | .mk _ stmts => ofStmts stmts

def ofBranches : Branches → Stats
  | .done => empty
  | .otherwise body => ofBlock body
  | .branch _ body rest => (ofBlock body).join (ofBranches rest)

end

def ofProgram (p : Program) : Stats :=
  { ofStmts p.stmts with topLevelStatements := p.stmts.length }

end Stats

end KitchenScript
