import KitchenScript.Proofs.Program.Nodes
import KitchenScript.Proofs.Run.Simulation

/-!
# Programs with other expressions

A program in which every expression is replaced by one of the same value runs as before, and the
spans of its statements may change as well.  The bodies of functions are rewritten with the rest,
and they get into the machine.  So an action before and the action after the rewriting are compared
on two machines whose functions differ by it: they give the same result, and the functions of the
machines they leave differ by it again.
-/

namespace KitchenScript

/-- A change of the spans and the expressions of statements. -/
structure Rewriting where
  place : Span → Span
  value : Expr → Expr

/-- Evaluation cannot tell an expression from the one that replaces it. -/
def Rewriting.Faithful (w : Rewriting) : Prop :=
  ∀ (limits : Limits) (call : Caller) (e : Expr),
    (w.value e).eval limits call = e.eval limits call

def Ident.rewrite (w : Rewriting) (x : Ident) : Ident :=
  ⟨x.name, w.place x.span⟩

namespace Stmt

mutual

def rewrite (w : Rewriting) : Stmt → Stmt
  | var s name value => .var (w.place s) (name.rewrite w) (w.value value)
  | assign s name value => .assign (w.place s) (name.rewrite w) (w.value value)
  | func s name params body =>
    .func (w.place s) (name.rewrite w) (params.map (Ident.rewrite w)) (rewriteBlock w body)
  | choose s branches => .choose (w.place s) (rewriteBranches w branches)
  | loop s condition body => .loop (w.place s) (w.value condition) (rewriteBlock w body)
  | giveBack s value => .giveBack (w.place s) (value.map w.value)
  | expr s value => .expr (w.place s) (w.value value)

def rewriteAll (w : Rewriting) : List Stmt → List Stmt
  | [] => []
  | s :: rest => s.rewrite w :: rewriteAll w rest

def rewriteBlock (w : Rewriting) : Block → Block
  | .mk s stmts => .mk (w.place s) (rewriteAll w stmts)

def rewriteBranches (w : Rewriting) : Branches → Branches
  | .done => .done
  | .otherwise body => .otherwise (rewriteBlock w body)
  | .branch condition body rest =>
    .branch (w.value condition) (rewriteBlock w body) (rewriteBranches w rest)

end

@[simp] theorem stmts_rewriteBlock (w : Rewriting) (b : Block) :
    (rewriteBlock w b).stmts = rewriteAll w b.stmts := by
  cases b
  rfl

@[simp] theorem map_name_rewrite (w : Rewriting) (xs : List Ident) :
    (xs.map (Ident.rewrite w)).map Ident.name = xs.map Ident.name := by
  rw [List.map_map]
  rfl

/-! ## The expressions of a rewritten program -/

mutual

theorem nodes_rewrite (w : Rewriting) (s : Stmt) :
    (s.rewrite w).nodes = s.nodes.map (rewrite w) := by
  match s with
  | .var _ _ _ | .assign _ _ _ | .giveBack _ _ | .expr _ _ => rfl
  | .func _ _ _ body | .loop _ _ body => simp [rewrite, nodes, nodesOfBlock_rewriteBlock w body]
  | .choose _ branches => simp [rewrite, nodes, nodesOfBranches_rewriteBranches w branches]

theorem nodesAll_rewriteAll (w : Rewriting) (stmts : List Stmt) :
    nodesAll (rewriteAll w stmts) = (nodesAll stmts).map (rewrite w) := by
  match stmts with
  | [] => rfl
  | s :: rest => simp [rewriteAll, nodesAll, nodes_rewrite w s, nodesAll_rewriteAll w rest]

theorem nodesOfBlock_rewriteBlock (w : Rewriting) (body : Block) :
    nodesOfBlock (rewriteBlock w body) = (nodesOfBlock body).map (rewrite w) := by
  match body with
  | .mk _ stmts => simp [rewriteBlock, nodesOfBlock, nodesAll_rewriteAll w stmts]

theorem nodesOfBranches_rewriteBranches (w : Rewriting) (branches : Branches) :
    nodesOfBranches (rewriteBranches w branches) =
      (nodesOfBranches branches).map (rewrite w) := by
  match branches with
  | .done => rfl
  | .otherwise body => simp [rewriteBranches, nodesOfBranches, nodesOfBlock_rewriteBlock w body]
  | .branch _ body rest =>
      simp [rewriteBranches, nodesOfBranches, nodesOfBlock_rewriteBlock w body,
        nodesOfBranches_rewriteBranches w rest]

end

theorem conditions_rewriteBranches (w : Rewriting) (branches : Branches) :
    (rewriteBranches w branches).conditions = branches.conditions.map w.value := by
  cases branches with
  | done | otherwise _ => rfl
  | branch condition _ rest =>
      simp [rewriteBranches, Branches.conditions, conditions_rewriteBranches w rest]

theorem exprs_rewrite (w : Rewriting) (s : Stmt) : (s.rewrite w).exprs = s.exprs.map w.value := by
  match s with
  | .var _ _ _ | .assign _ _ _ | .func _ _ _ _ | .loop _ _ _ | .expr _ _ => rfl
  | .choose _ branches => exact conditions_rewriteBranches w branches
  | .giveBack _ none | .giveBack _ (some _) => rfl

theorem exprsAll_rewriteAll (w : Rewriting) (stmts : List Stmt) :
    exprsAll (rewriteAll w stmts) = (exprsAll stmts).map w.value := by
  unfold exprsAll
  rw [nodesAll_rewriteAll, List.flatMap_map, List.map_flatMap]
  congr 1
  funext s
  exact exprs_rewrite w s

section Congruence

variable {place : Span → Span} {f g : Expr → Expr}

mutual

/-- Rewritings that agree on the expressions of a statement make the same of it. -/
theorem rewrite_congr (s : Stmt) (h : ∀ n ∈ s.nodes, ∀ e ∈ n.exprs, f e = g e) :
    s.rewrite ⟨place, f⟩ = s.rewrite ⟨place, g⟩ := by
  have hself := h s s.mem_nodes_self
  match s with
  | .var _ _ value | .assign _ _ value | .expr _ value =>
      have hvalue : f value = g value := hself value List.mem_cons_self
      simp only [rewrite, hvalue, Ident.rewrite]
  | .giveBack _ none => rfl
  | .giveBack _ (some value) =>
      have hvalue : f value = g value := hself value List.mem_cons_self
      simp only [rewrite, Option.map_some, hvalue]
  | .func _ _ _ body =>
      have hbody := rewriteBlock_congr body fun n hn => h n (List.mem_cons_of_mem _ hn)
      simp only [rewrite, hbody]
      rfl
  | .loop _ condition body =>
      have hcondition : f condition = g condition := hself condition List.mem_cons_self
      have hbody := rewriteBlock_congr body fun n hn => h n (List.mem_cons_of_mem _ hn)
      simp only [rewrite, hcondition, hbody]
  | .choose _ branches =>
      have hbranches := rewriteBranches_congr branches hself
        fun n hn => h n (List.mem_cons_of_mem _ hn)
      simp only [rewrite, hbranches]

theorem rewriteAll_congr (stmts : List Stmt)
    (h : ∀ n ∈ nodesAll stmts, ∀ e ∈ n.exprs, f e = g e) :
    rewriteAll ⟨place, f⟩ stmts = rewriteAll ⟨place, g⟩ stmts := by
  match stmts with
  | [] => rfl
  | s :: rest =>
      rw [nodesAll, List.forall_mem_append] at h
      rw [rewriteAll, rewriteAll, rewrite_congr s h.1, rewriteAll_congr rest h.2]

theorem rewriteBlock_congr (body : Block)
    (h : ∀ n ∈ nodesOfBlock body, ∀ e ∈ n.exprs, f e = g e) :
    rewriteBlock ⟨place, f⟩ body = rewriteBlock ⟨place, g⟩ body := by
  match body with
  | .mk _ stmts => rw [rewriteBlock, rewriteBlock, rewriteAll_congr stmts h]

theorem rewriteBranches_congr (branches : Branches)
    (hconditions : ∀ e ∈ branches.conditions, f e = g e)
    (h : ∀ n ∈ nodesOfBranches branches, ∀ e ∈ n.exprs, f e = g e) :
    rewriteBranches ⟨place, f⟩ branches = rewriteBranches ⟨place, g⟩ branches := by
  match branches with
  | .done => rfl
  | .otherwise body => rw [rewriteBranches, rewriteBranches, rewriteBlock_congr body h]
  | .branch condition body rest =>
      rw [Branches.conditions, List.forall_mem_cons] at hconditions
      rw [nodesOfBranches, List.forall_mem_append] at h
      have hcondition : f condition = g condition := hconditions.1
      simp only [rewriteBranches, hcondition, rewriteBlock_congr body h.1,
        rewriteBranches_congr rest hconditions.2 h.2]

end

end Congruence

end Stmt

def Function.rewrite (w : Rewriting) (f : Function) : Function :=
  { f with body := Stmt.rewriteAll w f.body }

/-! ## Machines -/

namespace Environment

def rewrite (w : Rewriting) (e : Environment) : Environment :=
  { e with functions := e.functions.map fun entry => (entry.1, entry.2.rewrite w) }

theorem lookup_rewrite (w : Rewriting) (functions : List (String × Function)) (name : String) :
    (functions.map fun entry => (entry.1, entry.2.rewrite w)).lookup name =
      (functions.lookup name).map (Function.rewrite w) := by
  induction functions with
  | nil => rfl
  | cons entry rest ih =>
      obtain ⟨x, f⟩ := entry
      by_cases hx : name == x
      · simp [List.lookup_cons, hx]
      · simp [List.lookup_cons, hx, ih]

theorem function_rewrite (w : Rewriting) (e : Environment) (name : String) :
    (e.rewrite w).function name = (e.function name).map (Function.rewrite w) := by
  simp only [function, rewrite, lookup_rewrite]
  cases e.functions.lookup name <;> rfl

theorem declare_rewrite (w : Rewriting) (e : Environment) (name : String) (value : Value) :
    (e.rewrite w).declare name value = (e.declare name value).map (rewrite w) := by
  have hbound : (e.rewrite w).isBound name = e.isBound name := rfl
  unfold declare
  rw [hbound]
  split <;> rfl

theorem assign_rewrite (w : Rewriting) (e : Environment) (name : String) (value : Value) :
    (e.rewrite w).assign name value = (e.assign name value).map (rewrite w) := by
  have hbound : (e.rewrite w).isBound name = e.isBound name := rfl
  unfold assign
  rw [hbound]
  split <;> rfl

theorem define_rewrite (w : Rewriting) (e : Environment) (f : Function) :
    (e.rewrite w).define (f.rewrite w) = (e.define f).map (rewrite w) := by
  have htaken : ((e.rewrite w).isBound f.name || ((e.rewrite w).functions.lookup f.name).isSome) =
      (e.isBound f.name || (e.functions.lookup f.name).isSome) := by
    simp only [rewrite, lookup_rewrite, Option.isSome_map]
    rfl
  unfold define
  rw [Function.rewrite, htaken]
  split
  · rfl
  · simp [Except.map, rewrite, Function.rewrite]

theorem popFrame_rewrite (w : Rewriting) (e : Environment) :
    (e.rewrite w).popFrame = e.popFrame.rewrite w := by
  obtain ⟨vars, frames, functions⟩ := e
  cases frames <;> rfl

end Environment

namespace Machine

def rewrite (w : Rewriting) (m : Machine) : Machine :=
  { m with env := m.env.rewrite w }

end Machine

namespace Exec

variable {α β : Type} {w : Rewriting}

/-- The second action does on the machine after the rewriting what the first does before it. -/
def Mirrors (w : Rewriting) (x x' : Exec α) : Prop :=
  ∀ m, x' (m.rewrite w) = ((x m).1, (x m).2.rewrite w)

theorem mirrors_pure (a : α) : Mirrors w (Exec.pure a) (Exec.pure a) :=
  fun _ => rfl

theorem mirrors_fail (e : Fault) : Mirrors w (Exec.fail e : Exec α) (Exec.fail e) :=
  fun _ => rfl

theorem mirrors_lift (result : Except Fault α) : Mirrors w (Exec.lift result) (Exec.lift result) :=
  fun _ => rfl

theorem Mirrors.bind {x x' : Exec α} {f f' : α → Exec β} (hx : Mirrors w x x')
    (hf : ∀ a, Mirrors w (f a) (f' a)) : Mirrors w (x >>= f) (x' >>= f') := by
  intro m
  change Exec.bind x' f' (m.rewrite w) = ((Exec.bind x f m).1, (Exec.bind x f m).2.rewrite w)
  rw [Exec.bind, Exec.bind, hx m]
  cases x m with
  | mk result m₁ =>
      cases result with
      | ok a => exact hf a m₁
      | error e => rfl

theorem mirrors_ite {p : Prop} [Decidable p] {x x' y y' : Exec α} (hx : Mirrors w x x')
    (hy : Mirrors w y y') : Mirrors w (if p then x else y) (if p then x' else y') := by
  by_cases hp : p
  · rwa [if_pos hp, if_pos hp]
  · rwa [if_neg hp, if_neg hp]

theorem mirrors_get (name : String) : Mirrors w (ask (·.get name)) (ask (·.get name)) :=
  fun _ => rfl

/-- A function read off the machine comes with its own body. -/
theorem mirrors_function_bind (name : String) {f f' : Function → Exec β}
    (hf : ∀ g, Mirrors w (f g) (f' (g.rewrite w))) :
    Mirrors w (ask (·.function name) >>= f) (ask (·.function name) >>= f') := by
  intro m
  change Exec.bind _ f' (m.rewrite w) = ((Exec.bind _ f m).1, (Exec.bind _ f m).2.rewrite w)
  have hfunction : (m.rewrite w).env.function name =
      (m.env.function name).map (Function.rewrite w) := Environment.function_rewrite w m.env name
  rw [Exec.bind, Exec.bind, ask, ask, hfunction]
  cases m.env.function name with
  | ok g => exact hf g m
  | error e => rfl

theorem mirrors_update {f f' : Environment → Except Fault Environment}
    (hf : ∀ e, f' (e.rewrite w) = (f e).map (Environment.rewrite w)) :
    Mirrors w (update f) (update f') := by
  intro m
  have henv : f' (m.rewrite w).env = (f m.env).map (Environment.rewrite w) := hf m.env
  rw [update, update, henv]
  cases f m.env <;> rfl

theorem mirrors_tick (limits : Limits) : Mirrors w (tick limits) (tick limits) := by
  intro m
  have hsteps : (m.rewrite w).steps = m.steps := rfl
  unfold tick
  simp only [hsteps]
  split <;> rfl

theorem mirrors_perform (request : Request) : Mirrors w (perform request) (perform request) := by
  intro m
  cases request with
  | print value => rfl
  | operation op =>
      have hkitchen : (m.rewrite w).kitchen = m.kitchen := rfl
      simp only [perform, hkitchen]
      cases op.carryOut m.kitchen <;> rfl

theorem mirrors_inFrame (params : List (String × Value)) {body body' : Exec α}
    (h : Mirrors w body body') : Mirrors w (inFrame params body) (inFrame params body') := by
  intro m
  have hbody := h { m with env := m.env.pushFrame params }
  have hpush : ({ m.rewrite w with env := (m.rewrite w).env.pushFrame params } : Machine) =
      Machine.rewrite w { m with env := m.env.pushFrame params } := rfl
  simp only [inFrame, hpush, hbody]
  simp only [Machine.rewrite, Environment.popFrame_rewrite]

end Exec

open Exec

/-! ## Trees -/

section Trees

variable {w : Rewriting} {limits : Limits} {call : Caller}

/-- What a call of a function does is mirrored by the call after a rewriting. -/
def CallMirrors (w : Rewriting) (call : Caller) : Prop :=
  ∀ f values, Mirrors w (call f values) (call (f.rewrite w) values)

mutual

theorem Expr.mirrors_eval (hcall : CallMirrors w call) (e : Expr) :
    Mirrors w (e.eval limits call) (e.eval limits call) := by
  match e with
  | .number _ _ | .text _ _ | .bool _ _ | .none _ =>
      rw [Expr.eval]
      exact mirrors_pure _
  | .list _ items =>
      rw [Expr.eval]
      exact (Expr.mirrors_evalAll hcall items).bind fun values => mirrors_lift _
  | .name _ x =>
      rw [Expr.eval]
      exact mirrors_get x
  | .call _ callee args =>
      rw [Expr.eval]
      refine mirrors_function_bind callee.name fun f => mirrors_ite ?_ (mirrors_fail _)
      exact (Expr.mirrors_evalAll hcall args).bind fun values => hcall f values
  | .builtin _ callee args =>
      rw [Expr.eval]
      refine mirrors_ite ?_ (mirrors_fail _)
      refine (Expr.mirrors_evalAll hcall args).bind fun values => ?_
      exact (mirrors_lift _).bind fun request => mirrors_perform request
  | .index _ target position =>
      rw [Expr.eval]
      refine (Expr.mirrors_eval hcall target).bind fun t => ?_
      exact (Expr.mirrors_eval hcall position).bind fun p => mirrors_lift _
  | .binary _ op left right =>
      rw [Expr.eval]
      refine (Expr.mirrors_eval hcall left).bind fun a => ?_
      exact (Expr.mirrors_eval hcall right).bind fun b => mirrors_lift _
  | .unary _ op operand =>
      rw [Expr.eval]
      exact (Expr.mirrors_eval hcall operand).bind fun a => mirrors_lift _
  | .paren _ inner =>
      rw [Expr.eval]
      exact Expr.mirrors_eval hcall inner

theorem Expr.mirrors_evalAll (hcall : CallMirrors w call) (items : List Expr) :
    Mirrors w (Expr.evalAll limits call items) (Expr.evalAll limits call items) := by
  match items with
  | [] =>
      rw [Expr.evalAll]
      exact mirrors_pure _
  | e :: rest =>
      rw [Expr.evalAll]
      refine (Expr.mirrors_eval hcall e).bind fun v => ?_
      exact (Expr.mirrors_evalAll hcall rest).bind fun vs => mirrors_pure _

end

theorem mirrors_iterate {condition condition' : Exec Bool} {body body' : Exec Flow}
    (hcondition : Mirrors w condition condition') (hbody : Mirrors w body body') (rounds : Nat) :
    Mirrors w (iterate limits condition body rounds) (iterate limits condition' body' rounds) := by
  induction rounds with
  | zero => exact mirrors_fail _
  | succ rounds ih =>
      rw [Config.iterate_succ, Config.iterate_succ]
      refine hcondition.bind fun holds => mirrors_ite ?_ (mirrors_pure _)
      refine (mirrors_tick limits).bind fun _ => hbody.bind fun flow => ?_
      cases flow with
      | next => exact ih
      | returned v => exact mirrors_pure _

theorem mirrors_repeatWhile {condition condition' : Exec Bool} {body body' : Exec Flow}
    (hcondition : Mirrors w condition condition') (hbody : Mirrors w body body') :
    Mirrors w (repeatWhile limits condition body) (repeatWhile limits condition' body') :=
  fun m => mirrors_iterate hcondition hbody (limits.maxSteps + 1 - m.steps) m

theorem Expr.mirrors_value (hfaithful : w.Faithful) (hcall : CallMirrors w call)
    (e : Expr) :
    Mirrors w (e.eval limits call) ((w.value e).eval limits call) := by
  rw [hfaithful]
  exact Expr.mirrors_eval hcall e

theorem Expr.mirrors_holds (hfaithful : w.Faithful) (hcall : CallMirrors w call)
    (e : Expr) :
    Mirrors w (e.holds limits call) ((w.value e).holds limits call) :=
  (Expr.mirrors_value hfaithful hcall e).bind fun _ => mirrors_lift _

mutual

theorem Stmt.mirrors_exec (hfaithful : w.Faithful) (hcall : CallMirrors w call)
    (s : Stmt) :
    Mirrors w (s.exec limits call) ((s.rewrite w).exec limits call) := by
  match s with
  | .var _ name value =>
      rw [Stmt.rewrite, Stmt.exec, Stmt.exec]
      refine (mirrors_tick limits).bind fun _ => ?_
      refine (Expr.mirrors_value hfaithful hcall value).bind fun v => ?_
      refine (mirrors_update fun e => ?_).bind fun _ => mirrors_pure _
      exact Environment.declare_rewrite w e name.name v
  | .assign _ name value =>
      rw [Stmt.rewrite, Stmt.exec, Stmt.exec]
      refine (mirrors_tick limits).bind fun _ => ?_
      refine (Expr.mirrors_value hfaithful hcall value).bind fun v => ?_
      refine (mirrors_update fun e => ?_).bind fun _ => mirrors_pure _
      exact Environment.assign_rewrite w e name.name v
  | .func _ name params body =>
      rw [Stmt.rewrite, Stmt.exec, Stmt.exec, Stmt.stmts_rewriteBlock, Stmt.map_name_rewrite]
      refine (mirrors_tick limits).bind fun _ => ?_
      refine (mirrors_update fun e => ?_).bind fun _ => mirrors_pure _
      exact Environment.define_rewrite w e ⟨name.name, params.map Ident.name, body.stmts⟩
  | .choose _ branches =>
      rw [Stmt.rewrite, Stmt.exec, Stmt.exec]
      exact (mirrors_tick limits).bind fun _ => Stmt.mirrors_execBranches hfaithful hcall branches
  | .loop _ condition body =>
      rw [Stmt.rewrite, Stmt.exec, Stmt.exec]
      refine (mirrors_tick limits).bind fun _ => ?_
      exact mirrors_repeatWhile (Expr.mirrors_holds hfaithful hcall condition)
        (Stmt.mirrors_execBlock hfaithful hcall body)
  | .giveBack _ (some value) =>
      rw [Stmt.rewrite, Option.map_some, Stmt.exec, Stmt.exec]
      refine (mirrors_tick limits).bind fun _ => ?_
      exact (Expr.mirrors_value hfaithful hcall value).bind fun v => mirrors_pure _
  | .giveBack _ none =>
      rw [Stmt.rewrite, Option.map_none, Stmt.exec, Stmt.exec]
      exact (mirrors_tick limits).bind fun _ => mirrors_pure _
  | .expr _ value =>
      rw [Stmt.rewrite, Stmt.exec, Stmt.exec]
      refine (mirrors_tick limits).bind fun _ => ?_
      exact (Expr.mirrors_value hfaithful hcall value).bind fun v => mirrors_pure _

theorem Stmt.mirrors_execAll (hfaithful : w.Faithful) (hcall : CallMirrors w call)
    (stmts : List Stmt) :
    Mirrors w (Stmt.execAll limits call stmts)
      (Stmt.execAll limits call (Stmt.rewriteAll w stmts)) := by
  match stmts with
  | [] =>
      rw [Stmt.rewriteAll, Stmt.execAll]
      exact mirrors_pure _
  | s :: rest =>
      rw [Stmt.rewriteAll, Stmt.execAll, Stmt.execAll]
      refine (Stmt.mirrors_exec hfaithful hcall s).bind fun flow => ?_
      cases flow with
      | next => exact Stmt.mirrors_execAll hfaithful hcall rest
      | returned v => exact mirrors_pure _

theorem Stmt.mirrors_execBlock (hfaithful : w.Faithful) (hcall : CallMirrors w call)
    (body : Block) :
    Mirrors w (Stmt.execBlock limits call body)
      (Stmt.execBlock limits call (Stmt.rewriteBlock w body)) := by
  match body with
  | .mk _ stmts =>
      rw [Stmt.rewriteBlock, Stmt.execBlock, Stmt.execBlock]
      exact Stmt.mirrors_execAll hfaithful hcall stmts

theorem Stmt.mirrors_execBranches (hfaithful : w.Faithful) (hcall : CallMirrors w call)
    (branches : Branches) :
    Mirrors w (Stmt.execBranches limits call branches)
      (Stmt.execBranches limits call (Stmt.rewriteBranches w branches)) := by
  match branches with
  | .done =>
      rw [Stmt.rewriteBranches, Stmt.execBranches]
      exact mirrors_pure _
  | .otherwise body =>
      rw [Stmt.rewriteBranches, Stmt.execBranches, Stmt.execBranches]
      exact Stmt.mirrors_execBlock hfaithful hcall body
  | .branch condition body rest =>
      rw [Stmt.rewriteBranches, Stmt.execBranches, Stmt.execBranches]
      refine (Expr.mirrors_holds hfaithful hcall condition).bind fun holds => mirrors_ite ?_ ?_
      · exact Stmt.mirrors_execBlock hfaithful hcall body
      · exact Stmt.mirrors_execBranches hfaithful hcall rest

end

end Trees

/-! ## Runs -/

/-- By induction on the calls that may still be opened. -/
theorem callMirrors_callWithin {w : Rewriting} (hfaithful : w.Faithful) (limits : Limits)
    (depth : Nat) : CallMirrors w (callWithin limits depth) := by
  induction depth with
  | zero =>
      intro f values
      exact mirrors_fail _
  | succ depth ih =>
      intro f values
      have hbody : Mirrors w (Stmt.execAll limits (callWithin limits depth) f.body)
          (Stmt.execAll limits (callWithin limits depth) (f.rewrite w).body) :=
        Stmt.mirrors_execAll hfaithful ih f.body
      exact (mirrors_inFrame (f.params.zip values) hbody).bind fun flow => mirrors_pure _

theorem mirrors_execute {w : Rewriting} (hfaithful : w.Faithful) (limits : Limits)
    (stmts : List Stmt) :
    Mirrors w (execute limits stmts) (execute limits (Stmt.rewriteAll w stmts)) :=
  fun m => Stmt.mirrors_execAll hfaithful
    (callMirrors_callWithin hfaithful limits (m.callsLeft limits)) stmts m

namespace Program

theorem run_of_faithful {w : Rewriting} (hfaithful : w.Faithful) (limits : Limits) (k : Kitchen)
    {p q : Program} (h : q.stmts = Stmt.rewriteAll w p.stmts) :
    q.run limits k = p.run limits k := by
  -- no function has been entered yet, so the machine at the start has nothing to rewrite
  have hstart : (Machine.forKitchen k).rewrite w = .forKitchen k := rfl
  have hrun := mirrors_execute hfaithful limits p.stmts (.forKitchen k)
  rw [hstart, ← h] at hrun
  rw [run, run, hrun]
  cases execute limits p.stmts (.forKitchen k) with
  | mk result m => cases result <;> rfl

open Classical in
/-- A program runs as it does after a rewriting that keeps the values of its expressions. -/
theorem run_rewrite {w : Rewriting} {p q : Program} (h : q.stmts = Stmt.rewriteAll w p.stmts)
    (hvalues : ∀ e ∈ p.exprs, ∀ (limits : Limits) (call : Caller),
      (w.value e).eval limits call = e.eval limits call)
    (limits : Limits) (k : Kitchen) : q.run limits k = p.run limits k := by
  -- what stands in no expression of the program may stay as it is
  let kept : Expr → Expr := fun e =>
    if ∀ (limits : Limits) (call : Caller), (w.value e).eval limits call = e.eval limits call then
      w.value e
    else e
  have hfaithful : Rewriting.Faithful ⟨w.place, kept⟩ := by
    intro limits call e
    by_cases he : ∀ (limits : Limits) (call : Caller),
        (w.value e).eval limits call = e.eval limits call
    · simp only [kept, if_pos he]
      exact he limits call
    · simp only [kept, if_neg he]
  have hsame : Stmt.rewriteAll w p.stmts = Stmt.rewriteAll ⟨w.place, kept⟩ p.stmts := by
    apply Stmt.rewriteAll_congr
    intro n hn e he
    exact (if_pos (hvalues e (List.mem_flatMap.mpr ⟨n, hn, he⟩))).symm
  exact run_of_faithful hfaithful limits k (h.trans hsame)

end Program

end KitchenScript
