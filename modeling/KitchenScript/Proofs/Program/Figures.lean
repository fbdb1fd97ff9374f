import KitchenScript.Proofs.Program.Nodes

/-!
# Figures from nodes

The figures of a program are collected in one walk over its tree, in which they are added up, counted
and compared at once.  Here they are read off the list of its statements instead: how many there are,
how many of them declare functions, and the largest of those.
-/

namespace KitchenScript

/-- The parameters and the body of the function that a statement declares. -/
def Stmt.declared? : Stmt → Option (List Ident × Block)
  | func _ _ params body => some (params, body)
  | _ => none

/-- The functions that a program declares at any depth. -/
def Program.declarations (p : Program) : List (List Ident × Block) :=
  p.stmtNodes.filterMap Stmt.declared?

/-- The largest of some numbers, zero without any. -/
def largest (ns : List Nat) : Nat :=
  ns.foldr max 0

theorem largest_cons (n : Nat) (ns : List Nat) : largest (n :: ns) = max n (largest ns) := rfl

theorem largest_append (ns ms : List Nat) : largest (ns ++ ms) = max (largest ns) (largest ms) := by
  induction ns with
  | nil => exact (Nat.zero_max _).symm
  | cons n ns ih => rw [List.cons_append, largest_cons, largest_cons, ih, Nat.max_assoc]

theorem largest_le_iff {ns : List Nat} {bound : Nat} :
    largest ns ≤ bound ↔ ∀ n ∈ ns, n ≤ bound := by
  induction ns with
  | nil => simp [largest]
  | cons n ns ih => rw [largest_cons, Nat.max_le, ih, List.forall_mem_cons]

namespace Stats

/-- The figures of some statements, of which each is counted once. -/
def ofNodes (nodes : List Stmt) : Stats where
  statements := nodes.length
  topLevelStatements := 0
  functions := (nodes.filterMap Stmt.declared?).length
  maxParams := largest ((nodes.filterMap Stmt.declared?).map fun d => d.1.length)
  longestFunction :=
    largest ((nodes.filterMap Stmt.declared?).map fun d => (Stmt.nodesOfBlock d.2).length)

theorem ofNodes_append (as bs : List Stmt) :
    ofNodes (as ++ bs) = (ofNodes as).join (ofNodes bs) := by
  simp [ofNodes, join, largest_append]

theorem ofNodes_func (span : Span) (name : Ident) (params : List Ident) (body : Block) :
    ofNodes (Stmt.func span name params body).nodes =
      { statements := (ofNodes (Stmt.nodesOfBlock body)).statements + 1
        topLevelStatements := 0
        functions := (ofNodes (Stmt.nodesOfBlock body)).functions + 1
        maxParams := max params.length (ofNodes (Stmt.nodesOfBlock body)).maxParams
        longestFunction := max (ofNodes (Stmt.nodesOfBlock body)).statements
          (ofNodes (Stmt.nodesOfBlock body)).longestFunction } := rfl

theorem ofNodes_cons {s : Stmt} (hs : s.declared? = none) (nodes : List Stmt) :
    ofNodes (s :: nodes) =
      { ofNodes nodes with statements := (ofNodes nodes).statements + 1 } := by
  simp [ofNodes, hs]

mutual

theorem ofStmt_eq (s : Stmt) : ofStmt s = ofNodes s.nodes := by
  match s with
  | .var _ _ _ | .assign _ _ _ | .giveBack _ _ | .expr _ _ => rfl
  | .func span name params body => rw [ofNodes_func, ofStmt, ofBlock_eq body]
  | .choose _ branches => rw [Stmt.nodes, ofNodes_cons rfl, ofStmt, ofBranches_eq branches]
  | .loop _ _ body => rw [Stmt.nodes, ofNodes_cons rfl, ofStmt, ofBlock_eq body]

theorem ofStmts_eq (stmts : List Stmt) : ofStmts stmts = ofNodes (Stmt.nodesAll stmts) := by
  match stmts with
  | [] => rfl
  | s :: rest => rw [Stmt.nodesAll, ofNodes_append, ofStmts, ofStmt_eq s, ofStmts_eq rest]

theorem ofBlock_eq (body : Block) : ofBlock body = ofNodes (Stmt.nodesOfBlock body) := by
  match body with
  | .mk _ stmts => exact ofStmts_eq stmts

theorem ofBranches_eq (branches : Branches) :
    ofBranches branches = ofNodes (Stmt.nodesOfBranches branches) := by
  match branches with
  | .done => rfl
  | .otherwise body => exact ofBlock_eq body
  | .branch _ body rest =>
      rw [Stmt.nodesOfBranches, ofNodes_append, ofBranches, ofBlock_eq body, ofBranches_eq rest]

end

/-- The walk over a program collects the figures of its nodes. -/
theorem ofProgram_eq (p : Program) :
    ofProgram p = { ofNodes p.stmtNodes with topLevelStatements := p.stmts.length } := by
  rw [ofProgram, ofStmts_eq]
  rfl

end Stats

end KitchenScript
