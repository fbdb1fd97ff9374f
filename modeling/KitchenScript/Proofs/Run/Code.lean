import KitchenScript.Proofs.Program.Nodes
import KitchenScript.Proofs.Run.Simulation

/-!
# The code of a run

Whatever a run looks at comes from its program: the focus, the work on the stack and the functions
in the table.  So what is true of every node of the program is true of every node that the run comes
to, and this holds through calls, since a function is entered only by a declaration of the program.

Arguments are collected one by one, and their number is the one that was checked before the first of
them was evaluated.  What is asked of the kitchen is asked by a kitchen call of the program.
-/

namespace KitchenScript

/-- Conditions on the single nodes of a program. -/
structure Rules where
  expr : Expr → Prop
  stmt : Stmt → Prop

namespace Rules

variable (r : Rules)

def OnExpr (e : Expr) : Prop :=
  ∀ n ∈ e.nodes, r.expr n

def OnItems (items : List Expr) : Prop :=
  ∀ n ∈ Expr.nodesAll items, r.expr n

/-- The rules on some statements and on the expressions that stand in them. -/
def OnStmts (nodes : List Stmt) : Prop :=
  ∀ s ∈ nodes, r.stmt s ∧ ∀ e ∈ s.exprs, r.OnExpr e

def OnBranches (branches : Branches) : Prop :=
  (∀ e ∈ branches.conditions, r.OnExpr e) ∧ r.OnStmts (Stmt.nodesOfBranches branches)

/-- The function is one that a statement declares, and all of that statement keeps the rules. -/
def OnFunction (f : Function) : Prop :=
  ∃ span name params body, f = ⟨name.name, params.map Ident.name, body.stmts⟩ ∧
    r.OnStmts (Stmt.func span name params body).nodes

def OnProgram (p : Program) : Prop :=
  r.OnStmts p.stmtNodes

/-- The rules leave room for a call of this kind. -/
def Permits (b : Builtin) : Prop :=
  ∃ span args, r.expr (.builtin span b args)

variable {r}

theorem onStmts_cons {s : Stmt} {nodes : List Stmt} :
    r.OnStmts (s :: nodes) ↔ (r.stmt s ∧ ∀ e ∈ s.exprs, r.OnExpr e) ∧ r.OnStmts nodes :=
  List.forall_mem_cons

theorem onStmts_append {as bs : List Stmt} :
    r.OnStmts (as ++ bs) ↔ r.OnStmts as ∧ r.OnStmts bs :=
  List.forall_mem_append

theorem onItems_cons {e : Expr} {rest : List Expr} :
    r.OnItems (e :: rest) ↔ r.OnExpr e ∧ r.OnItems rest :=
  List.forall_mem_append

theorem OnFunction.onStmts_body {f : Function} (h : r.OnFunction f) :
    r.OnStmts (Stmt.nodesAll f.body) := by
  obtain ⟨span, name, params, body, rfl, hdeclared⟩ := h
  rw [Stmt.nodes, onStmts_cons, Stmt.nodesOfBlock_eq] at hdeclared
  exact hdeclared.2

theorem onProgram_of {p : Program} (hstmt : ∀ s ∈ p.stmtNodes, r.stmt s)
    (hexpr : ∀ e ∈ p.exprNodes, r.expr e) : r.OnProgram p := by
  intro s hs
  refine ⟨hstmt s hs, fun e he n hn => hexpr n ?_⟩
  have hwhole : e ∈ p.exprs := List.mem_flatMap.mpr ⟨s, hs, he⟩
  exact List.mem_flatMap.mpr ⟨e, hwhole, hn⟩

end Rules

/-! ## The parts of a configuration -/

/-- The use of `n` values. -/
def Use.Obeys (r : Rules) (n : Nat) : Use → Prop
  | list => True
  | call f => r.OnFunction f ∧ n = f.params.length
  | builtin b => r.Permits b ∧ n = b.arity

def Focus.Obeys (r : Rules) : Focus → Prop
  | expr e => r.OnExpr e
  | items use done rest => use.Obeys r (done.length + rest.length) ∧ r.OnItems rest
  | stmts rest => r.OnStmts (Stmt.nodesAll rest)
  | begun s => r.OnStmts s.nodes
  | branches rest => r.OnBranches rest
  | loop condition body => r.OnExpr condition ∧ r.OnStmts (Stmt.nodesOfBlock body)
  | value _ => True
  | flow _ => True
  | fault _ => True

def Frame.Obeys (r : Rules) : Frame → Prop
  | items use done others => use.Obeys r (done.length + others.length + 1) ∧ r.OnItems others
  | position e => r.OnExpr e
  | right _ e => r.OnExpr e
  | branch body others => r.OnStmts (Stmt.nodesOfBlock body) ∧ r.OnBranches others
  | test condition body => r.OnExpr condition ∧ r.OnStmts (Stmt.nodesOfBlock body)
  | round condition body => r.OnExpr condition ∧ r.OnStmts (Stmt.nodesOfBlock body)
  | rest stmts => r.OnStmts (Stmt.nodesAll stmts)
  | _ => True

def Environment.Obeys (r : Rules) (env : Environment) : Prop :=
  ∀ entry ∈ env.functions, r.OnFunction entry.2

structure Config.Obeys (r : Rules) (c : Config) : Prop where
  focus : c.focus.Obeys r
  stack : ∀ frame ∈ c.stack, frame.Obeys r
  env : c.machine.env.Obeys r

def Move.Obeys (r : Rules) : Move → Prop
  | go focus stack => focus.Obeys r ∧ ∀ frame ∈ stack, frame.Obeys r
  | set env focus stack => env.Obeys r ∧ focus.Obeys r ∧ ∀ frame ∈ stack, frame.Obeys r
  | spend focus stack => focus.Obeys r ∧ ∀ frame ∈ stack, frame.Obeys r
  | operate _ _ _ stack => ∀ frame ∈ stack, frame.Obeys r
  | act _ stack => (∃ b, r.Permits b) ∧ ∀ frame ∈ stack, frame.Obeys r
  | enter f _ stack => r.OnFunction f ∧ ∀ frame ∈ stack, frame.Obeys r
  | leave focus stack => focus.Obeys r ∧ ∀ frame ∈ stack, frame.Obeys r

variable {r : Rules} {limits : Limits}

theorem Focus.obeys_of {α : Type} {inject : α → Focus} {result : Except Fault α}
    (h : ∀ a, result = .ok a → (inject a).Obeys r) : (Focus.of inject result).Obeys r := by
  cases result with
  | ok a => exact h a rfl
  | error e => trivial

namespace Environment

theorem Obeys.function {env : Environment} (h : env.Obeys r) {x : String} {f : Function}
    (hf : env.function x = .ok f) : r.OnFunction f := by
  unfold Environment.function at hf
  cases hlookup : env.functions.lookup x with
  | none => simp [hlookup] at hf
  | some g =>
      rw [hlookup] at hf
      cases hf
      obtain ⟨before, after, hsplit, -⟩ := List.lookup_eq_some_iff.mp hlookup
      exact h (x, f) (by simp [hsplit])

theorem Obeys.declare {env env' : Environment} (h : env.Obeys r) {x : String} {v : Value}
    (henv : env.declare x v = .ok env') : env'.Obeys r := by
  unfold Environment.declare at henv
  split at henv
  · cases henv
  · cases henv
    exact h

theorem Obeys.assign {env env' : Environment} (h : env.Obeys r) {x : String} {v : Value}
    (henv : env.assign x v = .ok env') : env'.Obeys r := by
  unfold Environment.assign at henv
  split at henv
  · cases henv
    exact h
  · cases henv

theorem Obeys.define {env env' : Environment} (h : env.Obeys r) {f : Function}
    (hf : r.OnFunction f) (henv : env.define f = .ok env') : env'.Obeys r := by
  unfold Environment.define at henv
  split at henv
  · cases henv
  · cases henv
    intro entry hentry
    rcases List.mem_append.mp hentry with hold | hnew
    · exact h entry hold
    · rw [List.mem_singleton.mp hnew]
      exact hf

theorem Obeys.popFrame {env : Environment} (h : env.Obeys r) : env.popFrame.Obeys r := by
  unfold Environment.popFrame
  split <;> exact h

end Environment

/-! ## The moves -/

namespace Move

variable {env : Environment} {stack : List Frame}

theorem Obeys.make {move : Move} {m : Machine} (h : move.Obeys r) (hm : m.env.Obeys r) :
    (move.make limits m).Obeys r := by
  cases move with
  | go focus stack => exact ⟨h.1, h.2, hm⟩
  | set env focus stack => exact ⟨h.2.1, h.2.2, h.1⟩
  | spend focus stack =>
      refine ⟨Focus.obeys_of fun _ _ => h.1, h.2, ?_⟩
      rw [Move.make, settle, Exec.machine_tick]
      exact hm
  | operate op left right stack => exact ⟨Focus.obeys_of fun _ _ => trivial, h, hm⟩
  | act request stack =>
      refine ⟨Focus.obeys_of fun _ _ => trivial, h.2, ?_⟩
      rw [Move.make, settle, (Exec.perform_frame request m).1]
      exact hm
  | enter f values stack =>
      rw [Move.make]
      split
      · exact ⟨h.1.onStmts_body, List.forall_mem_cons.mpr ⟨trivial, h.2⟩, hm⟩
      · exact ⟨trivial, h.2, hm⟩
  | leave focus stack => exact ⟨h.1, h.2, hm.popFrame⟩

theorem obeys_change {result : Except Fault Environment}
    (hresult : ∀ env, result = .ok env → env.Obeys r) (hstack : ∀ frame ∈ stack, frame.Obeys r) :
    (change result stack).Obeys r := by
  cases result with
  | ok env => exact ⟨hresult env rfl, trivial, hstack⟩
  | error e => exact ⟨trivial, hstack⟩

theorem obeys_ofExpr {e : Expr} (he : r.OnExpr e) (henv : env.Obeys r)
    (hstack : ∀ frame ∈ stack, frame.Obeys r) : (ofExpr env stack e).Obeys r := by
  cases e with
  | number _ _ | text _ _ | bool _ _ | none _ => exact ⟨trivial, hstack⟩
  | list _ items => exact ⟨⟨trivial, (List.forall_mem_cons.mp he).2⟩, hstack⟩
  | name _ x => exact ⟨Focus.obeys_of fun _ _ => trivial, hstack⟩
  | call _ callee args =>
      refine ⟨Focus.obeys_of fun f hf => ?_, hstack⟩
      -- the arguments are counted here and not again when they have their values
      split
      · rename_i hargs
        have hcount : ([] : List Value).length + args.length = f.params.length := by
          simpa using hargs
        exact ⟨⟨henv.function hf, hcount⟩, (List.forall_mem_cons.mp he).2⟩
      · trivial
  | builtin span callee args =>
      obtain ⟨hself, hargsObey⟩ := List.forall_mem_cons.mp he
      rw [ofExpr]
      split
      · rename_i hargs
        have hcount : ([] : List Value).length + args.length = callee.arity := by
          simpa using hargs
        exact ⟨⟨⟨⟨span, args, hself⟩, hcount⟩, hargsObey⟩, hstack⟩
      · exact ⟨trivial, hstack⟩
  | index _ target position =>
      obtain ⟨htarget, hposition⟩ := List.forall_mem_append.mp (List.forall_mem_cons.mp he).2
      exact ⟨htarget, List.forall_mem_cons.mpr ⟨hposition, hstack⟩⟩
  | binary _ op left right =>
      obtain ⟨hleft, hright⟩ := List.forall_mem_append.mp (List.forall_mem_cons.mp he).2
      exact ⟨hleft, List.forall_mem_cons.mpr ⟨hright, hstack⟩⟩
  | unary _ op operand =>
      exact ⟨(List.forall_mem_cons.mp he).2, List.forall_mem_cons.mpr ⟨trivial, hstack⟩⟩
  | paren _ inner => exact ⟨(List.forall_mem_cons.mp he).2, hstack⟩

theorem obeys_ofUse {use : Use} {values : List Value} (huse : use.Obeys r values.length)
    (hstack : ∀ frame ∈ stack, frame.Obeys r) : (ofUse stack values use).Obeys r := by
  cases use with
  | list => exact ⟨Focus.obeys_of fun _ _ => trivial, hstack⟩
  | call f => exact ⟨huse.1, hstack⟩
  | builtin b =>
      rw [ofUse]
      split
      · exact ⟨⟨b, huse.1⟩, hstack⟩
      · exact ⟨trivial, hstack⟩

theorem obeys_ofStmt {s : Stmt} (hs : r.OnStmts s.nodes) (henv : env.Obeys r)
    (hstack : ∀ frame ∈ stack, frame.Obeys r) : (ofStmt env stack s).Obeys r := by
  have hself : ∀ e ∈ s.exprs, r.OnExpr e := (hs s s.mem_nodes_self).2
  have hpush : ∀ frame : Frame, frame.Obeys r → ∀ f ∈ frame :: stack, f.Obeys r :=
    fun frame hframe => List.forall_mem_cons.mpr ⟨hframe, hstack⟩
  cases s with
  | var _ name value => exact ⟨hself value (by simp [Stmt.exprs]), hpush _ trivial⟩
  | assign _ name value => exact ⟨hself value (by simp [Stmt.exprs]), hpush _ trivial⟩
  | func span name params body =>
      refine obeys_change (fun env' henv' => henv.define ?_ henv') hstack
      exact ⟨span, name, params, body, rfl, hs⟩
  | choose _ branches => exact ⟨⟨hself, (Rules.onStmts_cons.mp hs).2⟩, hstack⟩
  | loop _ condition body =>
      exact ⟨⟨hself condition (by simp [Stmt.exprs]), (Rules.onStmts_cons.mp hs).2⟩, hstack⟩
  | giveBack _ value =>
      cases value with
      | none => exact ⟨trivial, hstack⟩
      | some value => exact ⟨hself value (by simp [Stmt.exprs]), hpush _ trivial⟩
  | expr _ value => exact ⟨hself value (by simp [Stmt.exprs]), hpush _ trivial⟩

theorem obeys_ofBranches {rest : Branches} (hrest : r.OnBranches rest)
    (hstack : ∀ frame ∈ stack, frame.Obeys r) : (ofBranches stack rest).Obeys r := by
  obtain ⟨hconditions, hblocks⟩ := hrest
  cases rest with
  | done => exact ⟨trivial, hstack⟩
  | otherwise body =>
      rw [Stmt.nodesOfBranches, Stmt.nodesOfBlock_eq] at hblocks
      exact ⟨hblocks, hstack⟩
  | branch condition body rest =>
      obtain ⟨hcondition, hothers⟩ := List.forall_mem_cons.mp hconditions
      obtain ⟨hbody, hlater⟩ := Rules.onStmts_append.mp hblocks
      exact ⟨hcondition, List.forall_mem_cons.mpr ⟨⟨hbody, hothers, hlater⟩, hstack⟩⟩

theorem obeys_ofValue {frame : Frame} {move : Move} {v : Value} (hframe : frame.Obeys r)
    (henv : env.Obeys r) (hstack : ∀ frame ∈ stack, frame.Obeys r)
    (hmove : ofValue env v stack frame = some move) : move.Obeys r := by
  cases frame with
  | items use done rest =>
      cases hmove
      obtain ⟨huse, hrest⟩ := hframe
      have hcount : (done ++ [v]).length + rest.length = done.length + rest.length + 1 := by
        rw [List.length_append, List.length_singleton]
        omega
      exact ⟨⟨by rwa [hcount], hrest⟩, hstack⟩
  | position e | right _ e =>
      cases hmove
      exact ⟨hframe, List.forall_mem_cons.mpr ⟨trivial, hstack⟩⟩
  | itemOf target | sign op =>
      cases hmove
      exact ⟨Focus.obeys_of fun _ _ => trivial, hstack⟩
  | operate op left =>
      cases hmove
      exact hstack
  | declare x =>
      cases hmove
      exact obeys_change (fun _ h => henv.declare h) hstack
  | assign x =>
      cases hmove
      exact obeys_change (fun _ h => henv.assign h) hstack
  | giveBack | discard =>
      cases hmove
      exact ⟨trivial, hstack⟩
  | branch body rest =>
      cases hmove
      obtain ⟨hbody, hrest⟩ := hframe
      rw [Stmt.nodesOfBlock_eq] at hbody
      refine ⟨Focus.obeys_of fun holds _ => ?_, hstack⟩
      cases holds with
      | true => exact hbody
      | false => exact hrest
  | test condition body =>
      have hbody := hframe.2
      rw [Stmt.nodesOfBlock_eq] at hbody
      rw [ofValue] at hmove
      split at hmove
      · cases hmove
        exact ⟨hbody, List.forall_mem_cons.mpr ⟨hframe, hstack⟩⟩
      · cases hmove
        exact ⟨trivial, hstack⟩
      · cases hmove
        exact ⟨trivial, hstack⟩
  | round _ _ | rest _ | call => cases hmove

theorem obeys_ofFlow {frame : Frame} {move : Move} {f : Flow} (hframe : frame.Obeys r)
    (hstack : ∀ frame ∈ stack, frame.Obeys r) (hmove : ofFlow f stack frame = some move) :
    move.Obeys r := by
  cases frame with
  | rest _ | round _ _ =>
      cases f with
      | next =>
          cases hmove
          exact ⟨hframe, hstack⟩
      | returned _ =>
          cases hmove
          exact ⟨trivial, hstack⟩
  | call =>
      cases hmove
      exact ⟨trivial, hstack⟩
  | _ => cases hmove

theorem obeys_ofFault {frame : Frame} {e : Fault} (hstack : ∀ frame ∈ stack, frame.Obeys r) :
    (ofFault e stack frame).Obeys r := by
  cases frame <;> exact ⟨trivial, hstack⟩

end Move

namespace Config

theorem Obeys.move {c : Config} {move : Move} (h : c.Obeys r) (hmove : c.move? = some move) :
    move.Obeys r := by
  obtain ⟨focus, stack, m⟩ := c
  obtain ⟨hfocus, hstack, henv⟩ := h
  cases focus with
  | expr e =>
      cases hmove
      exact Move.obeys_ofExpr hfocus henv hstack
  | items use done rest =>
      cases rest with
      | nil =>
          cases hmove
          exact Move.obeys_ofUse hfocus.1 hstack
      | cons e rest =>
          cases hmove
          obtain ⟨huse, hitems⟩ := hfocus
          obtain ⟨he, hrest⟩ := Rules.onItems_cons.mp hitems
          exact ⟨he, List.forall_mem_cons.mpr ⟨⟨huse, hrest⟩, hstack⟩⟩
  | stmts rest =>
      cases rest with
      | nil =>
          cases hmove
          exact ⟨trivial, hstack⟩
      | cons s rest =>
          cases hmove
          obtain ⟨hs, hrest⟩ := Rules.onStmts_append.mp hfocus
          exact ⟨hs, List.forall_mem_cons.mpr ⟨hrest, hstack⟩⟩
  | begun s =>
      cases hmove
      exact Move.obeys_ofStmt hfocus henv hstack
  | branches rest =>
      cases hmove
      exact Move.obeys_ofBranches hfocus hstack
  | loop condition body =>
      cases hmove
      exact ⟨hfocus.1, List.forall_mem_cons.mpr ⟨hfocus, hstack⟩⟩
  | value v =>
      cases stack with
      | nil => cases hmove
      | cons frame stack =>
          obtain ⟨hframe, hrest⟩ := List.forall_mem_cons.mp hstack
          exact Move.obeys_ofValue hframe henv hrest hmove
  | flow f =>
      cases stack with
      | nil => cases hmove
      | cons frame stack =>
          obtain ⟨hframe, hrest⟩ := List.forall_mem_cons.mp hstack
          exact Move.obeys_ofFlow hframe hrest hmove
  | fault e =>
      cases stack with
      | nil => cases hmove
      | cons frame stack =>
          cases hmove
          exact Move.obeys_ofFault (List.forall_mem_cons.mp hstack).2

/-- One step keeps to the rules. -/
theorem Obeys.step {c c' : Config} (h : c.Obeys r) (hstep : c.step limits = some c') :
    c'.Obeys r := by
  obtain ⟨move, hmove, rfl⟩ := Option.map_eq_some_iff.mp hstep
  exact (h.move hmove).make h.env

theorem obeys_initial {p : Program} (h : r.OnProgram p) (k : Kitchen) : (initial k p).Obeys r where
  focus := h
  stack := nofun
  env := nofun

/-- Wherever a run of a program comes to, it keeps to the rules that the program keeps. -/
theorem Leads.obeys {p : Program} {k : Kitchen} {c : Config} (h : Leads limits (initial k p) c)
    (hp : r.OnProgram p) : c.Obeys r := by
  induction h with
  | refl => exact obeys_initial hp k
  | tail _ hlast ih => exact ih.step hlast

end Config

end KitchenScript
