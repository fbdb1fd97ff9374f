import KitchenScript.Proofs.Layout.Respan
import KitchenScript.Proofs.Run.Rewriting

/-!
# Runs do not depend on layout

Evaluation never looks at a span.  So a relayout replaces every expression of a program by one of
the same value, and the program runs as before.
-/

namespace KitchenScript

namespace Expr

mutual

theorem eval_respan (r : Relayout) (limits : Limits) (call : Caller) (e : Expr) :
    (e.respan r).eval limits call = e.eval limits call := by
  match e with
  | .number _ _ | .text _ _ | .bool _ _ | .none _ | .name _ _ => rfl
  | .list _ items => simp only [respan, eval, evalAll_respan r limits call items]
  | .call _ callee args =>
      simp only [respan, eval, evalAll_respan r limits call args, length_respanAll,
        Ident.name_respan]
  | .builtin _ callee args =>
      simp only [respan, eval, evalAll_respan r limits call args, length_respanAll]
  | .index _ target position =>
      simp only [respan, eval, eval_respan r limits call target,
        eval_respan r limits call position]
  | .binary _ op left right =>
      simp only [respan, eval, eval_respan r limits call left, eval_respan r limits call right]
  | .unary _ op operand => simp only [respan, eval, eval_respan r limits call operand]
  | .paren _ inner => simp only [respan, eval, eval_respan r limits call inner]

theorem evalAll_respan (r : Relayout) (limits : Limits) (call : Caller) (items : List Expr) :
    evalAll limits call (respanAll r items) = evalAll limits call items := by
  match items with
  | [] => rfl
  | e :: rest =>
      simp only [respanAll, evalAll, eval_respan r limits call e,
        evalAll_respan r limits call rest]

end

end Expr

namespace Relayout

def rewriting (r : Relayout) : Rewriting :=
  ⟨r.place, Expr.respan r⟩

end Relayout

namespace Stmt

mutual

theorem respan_eq_rewrite (r : Relayout) (s : Stmt) : s.respan r = s.rewrite r.rewriting := by
  match s with
  | .var _ _ _ | .assign _ _ _ | .giveBack _ _ | .expr _ _ => rfl
  | .func _ _ _ body => rw [respan, rewrite, respanBlock_eq_rewrite r body]; rfl
  | .choose _ branches => rw [respan, rewrite, respanBranches_eq_rewrite r branches]; rfl
  | .loop _ _ body => rw [respan, rewrite, respanBlock_eq_rewrite r body]; rfl

theorem respanAll_eq_rewrite (r : Relayout) (stmts : List Stmt) :
    respanAll r stmts = rewriteAll r.rewriting stmts := by
  match stmts with
  | [] => rfl
  | s :: rest =>
      rw [respanAll, rewriteAll, respan_eq_rewrite r s, respanAll_eq_rewrite r rest]

theorem respanBlock_eq_rewrite (r : Relayout) (body : Block) :
    respanBlock r body = rewriteBlock r.rewriting body := by
  match body with
  | .mk _ stmts => rw [respanBlock, rewriteBlock, respanAll_eq_rewrite r stmts]; rfl

theorem respanBranches_eq_rewrite (r : Relayout) (branches : Branches) :
    respanBranches r branches = rewriteBranches r.rewriting branches := by
  match branches with
  | .done => rfl
  | .otherwise body => rw [respanBranches, rewriteBranches, respanBlock_eq_rewrite r body]
  | .branch _ body rest =>
      rw [respanBranches, rewriteBranches, respanBlock_eq_rewrite r body,
        respanBranches_eq_rewrite r rest]
      rfl

end

end Stmt

namespace Program

/-- Programs that are equal up to spans run alike. -/
theorem run_eq_of_bare_eq {p q : Program} (h : p.bare = q.bare) (limits : Limits) (k : Kitchen) :
    p.run limits k = q.run limits k := by
  have hbare : ∀ p : Program, p.bare.run limits k = p.run limits k := by
    intro p
    have hstmts : p.bare.stmts = Stmt.rewriteAll (Relayout.rewriting .blank) p.stmts := by
      rw [← Stmt.respanAll_eq_rewrite, Stmt.respanAll_blank]
      rfl
    exact run_rewrite hstmts (fun e _ limits call => Expr.eval_respan .blank limits call e) limits k
  rw [← hbare p, h, hbare q]

end Program

end KitchenScript
