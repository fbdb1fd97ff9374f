import KitchenScript.Proofs.Program.Accepted
import KitchenScript.Proofs.Program.Figures

/-!
# Figures, nodes and tokens

What the figures of a program say, in terms of its nodes, and for a source that compiles also in
terms of its tokens: every `func` of the source declares a function of the program, and every
connective of the source joins two conditions of the program.
-/

namespace KitchenScript

theorem Branches.funcWord_not_mem_keywords (branches : Branches) :
    .funcWord ∉ branches.keywords := by
  cases branches with
  | done | otherwise _ => simp [keywords]
  | branch _ _ rest => simpa [keywords] using funcWord_not_mem_keywords rest

/-- A statement is written with `func` just if it declares a function. -/
theorem Stmt.count_funcWord (s : Stmt) :
    s.keywords.count .funcWord = s.declared?.toList.length := by
  cases s with
  | choose _ branches =>
      have hrest := fun rest : Branches => List.count_eq_zero.mpr rest.funcWord_not_mem_keywords
      cases branches with
      | branch _ _ rest => simp [keywords, declared?, hrest]
      | done | otherwise _ => rfl
  | _ => rfl

theorem Expr.keyword?_ne_funcWord (e : Expr) : e.keyword? ≠ some .funcWord := by
  cases e with
  | bool _ b => cases b <;> simp [keyword?]
  | binary _ op _ _ => cases op <;> simp [keyword?, BinaryOp.keyword?]
  | unary _ op _ => cases op <;> simp [keyword?]
  | _ => simp [keyword?]

/-- The functions of a program are counted by their keyword. -/
theorem Program.count_funcWord (p : Program) :
    p.keywords.count .funcWord = p.declarations.length := by
  have hstmts : ∀ nodes : List Stmt, (nodes.flatMap Stmt.keywords).count .funcWord =
      (nodes.filterMap Stmt.declared?).length := by
    intro nodes
    induction nodes with
    | nil => rfl
    | cons s nodes ih =>
        rw [List.flatMap_cons, List.count_append, s.count_funcWord, ih]
        cases hs : s.declared? with
        | none => simp [hs]
        | some d => simp [hs, Nat.add_comm]
  have hexprs : (Expr.keywords p.exprs).count .funcWord = 0 := by
    rw [List.count_eq_zero]
    intro hmem
    obtain ⟨e, -, he⟩ := List.mem_filterMap.mp hmem
    exact e.keyword?_ne_funcWord he
  rw [keywords, List.count_append, hexprs]
  exact hstmts p.stmtNodes

/-- The figures of a program count its statements and its functions, at every depth, and give the
most parameters and the most statements that a function has.  A source that compiles has a token
for each function and for each connective of its program. -/
theorem figures_count_nodes :
    (∀ p : Program,
      let stats := Stats.ofProgram p
      stats.statements = p.stmtNodes.length ∧
      stats.functions = p.declarations.length ∧
      stats.maxParams = largest (p.declarations.map fun d => d.1.length) ∧
      stats.longestFunction =
        largest (p.declarations.map fun d => (Stmt.nodesOfBlock d.2).length)) ∧
    ∀ source : Source, (compile source).succeeded = true →
      ∃ p stats, (compile source).program = some p ∧ (compile source).stats = some stats ∧
        stats = Stats.ofProgram p ∧
        stats.functions =
          (compile source).tokens.countP (fun t => t.kind == .keyword .funcWord) ∧
        (compile source).tokens.countP (fun t => t.kind == .keyword .andWord) =
          p.exprNodes.countP (Expr.applies .and) ∧
        (compile source).tokens.countP (fun t => t.kind == .keyword .orWord) =
          p.exprNodes.countP (Expr.applies .or) := by
  constructor
  · intro p stats
    have hstats : stats = _ := Stats.ofProgram_eq p
    rw [hstats]
    exact ⟨rfl, rfl, rfl, rfl⟩
  · intro source hsource
    obtain ⟨p, hp⟩ := (Compiled.succeeded_iff source).mp hsource
    refine ⟨p, Stats.ofProgram p, hp, ?_, rfl, ?_, ?_, ?_⟩
    · rw [stats_compile, hp, Option.map_some]
    · rw [Program.countP_keyword_of_compile hp, p.count_funcWord, Stats.ofProgram_eq]
      rfl
    · exact Program.countP_applies_of_compile hp BinaryOp.keyword?_and
    · exact Program.countP_applies_of_compile hp BinaryOp.keyword?_or

theorem figures_count_nodes_nested :
    let source : Source :=
      ⟨"main.ks", "func f(a, b) \x7b\n func g() \x7b\n return a or b && a and b\n\x7d\n\x7d"⟩
    (compile source).succeeded = true ∧
      ∃ p stats, (compile source).program = some p ∧ (compile source).stats = some stats ∧
        stats.functions = 2 ∧ p.exprNodes.countP (Expr.applies .and) = 2 ∧
        p.exprNodes.countP (Expr.applies .or) = 1 := by
  intro source
  have hsource : (compile source).succeeded = true := by decide +kernel
  obtain ⟨p, stats, hp, hstats, -, hfunc, hand, hor⟩ := figures_count_nodes.2 source hsource
  refine ⟨hsource, p, stats, hp, hstats, ?_, ?_, ?_⟩
  · rw [hfunc]
    decide +kernel
  · rw [← hand]
    decide +kernel
  · rw [← hor]
    decide +kernel

end KitchenScript
