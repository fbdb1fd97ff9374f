import KitchenScript.Proofs.Run.Record
import Mathlib.Order.Defs.Unbundled

/-!
# What evaluation leaves as it was

A call works on a copy of its caller's bindings, and the bindings come back when the call ends, in
whichever way it ends.  So an expression changes no variable, however many calls it makes; it can
only enter functions, write to the log and spend steps.  Statements may bind variables, but they
take no binding away and give back every frame they open.
-/

namespace KitchenScript

theorem Bindings.lookup_bind
    (name : String) (value : Value) (vars : Bindings) (x : String) :
    (Bindings.bind name value vars).lookup x =
      if x = name then some value else vars.lookup x := by
  induction vars with
  | nil =>
      by_cases hx : x = name
      · simp [Bindings.bind, hx]
      · simp [Bindings.bind, hx]
  | cons binding rest ih =>
      obtain ⟨other, old⟩ := binding
      by_cases hx : x = other
      · by_cases hother : other = name
        · simp [Bindings.bind, hx, hother]
        · simp [Bindings.bind, hx, hother]
      · have hbeq : (x == other) = false := by simpa using hx
        by_cases hother : other = name
        · have hname : ¬x = name := by rwa [← hother]
          have hbeq' : (x == name) = false := by simpa using hname
          simp [Bindings.bind, List.lookup_cons, hother, hbeq', hname]
        · simp [Bindings.bind, List.lookup_cons, hother, hbeq, ih]

namespace Machine

/-- What no part of a program takes back: the saved bindings stay, and functions, log and steps only
grow. -/
structure Grows (m m' : Machine) : Prop where
  frames : m'.env.frames = m.env.frames
  functions : m.env.functions <+: m'.env.functions
  log : m.log.toList <+: m'.log.toList
  steps : m.steps ≤ m'.steps

theorem Grows.refl (m : Machine) : Grows m m :=
  ⟨rfl, List.prefix_rfl, List.prefix_rfl, Nat.le_refl _⟩

theorem Grows.trans {a b c : Machine} (h : Grows a b) (h' : Grows b c) : Grows a c where
  frames := h'.frames.trans h.frames
  functions := h.functions.trans h'.functions
  log := h.log.trans h'.log
  steps := Nat.le_trans h.steps h'.steps

/-- An entry of the function table stays, with its function. -/
theorem Grows.lookup_functions {m m' : Machine} (h : Grows m m') {name : String} {f : Function}
    (hf : m.env.functions.lookup name = some f) : m'.env.functions.lookup name = some f :=
  h.functions.lookup_eq_some hf

/-- The effect of an expression. -/
structure Quiet (m m' : Machine) : Prop extends Grows m m' where
  vars : m'.env.vars = m.env.vars

/-- The effect of statements. -/
structure Steady (m m' : Machine) : Prop extends Grows m m' where
  bound : ∀ x, m.env.isBound x → m'.env.isBound x

theorem Quiet.steady {m m' : Machine} (h : Quiet m m') : Steady m m' where
  toGrows := h.toGrows
  bound := by
    intro x hx
    unfold Environment.isBound at hx ⊢
    rwa [h.vars]

instance : IsPreorder Machine Quiet where
  refl m := ⟨Grows.refl m, rfl⟩
  trans _ _ _ h h' := ⟨h.toGrows.trans h'.toGrows, h'.vars.trans h.vars⟩

instance : IsPreorder Machine Steady where
  refl m := ⟨Grows.refl m, fun _ hx => hx⟩
  trans _ _ _ h h' := ⟨h.toGrows.trans h'.toGrows, fun x hx => h'.bound x (h.bound x hx)⟩

end Machine

namespace Exec

open Machine

variable {α β : Type}

/-- Whatever the result of an action, the machine it leaves is related to the one it found. -/
def Within (R : Machine → Machine → Prop) (x : Exec α) : Prop :=
  ∀ m, R m (x m).2

section Within

variable {R : Machine → Machine → Prop} [IsPreorder Machine R]

theorem within_of_same {x : Exec α} (h : ∀ m, (x m).2 = m) : Within R x := by
  intro m
  rw [h m]
  exact refl m

theorem within_pure (a : α) : Within R (Exec.pure a) :=
  within_of_same fun _ => rfl

theorem within_fail (e : Fault) : Within R (Exec.fail e : Exec α) :=
  within_of_same fun _ => rfl

theorem within_lift (result : Except Fault α) : Within R (Exec.lift result) :=
  within_of_same fun _ => rfl

theorem within_ask (f : Environment → Except Fault α) : Within R (Exec.ask f) :=
  within_of_same fun _ => rfl

theorem Within.bind {x : Exec α} {f : α → Exec β} (hx : Within R x)
    (hf : ∀ a, Within R (f a)) : Within R (x >>= f) := by
  intro m
  have hbind : (x >>= f) m = Exec.bind x f m := rfl
  have hfirst := hx m
  rw [hbind, Exec.bind]
  cases hout : x m with
  | mk result m' =>
      rw [hout] at hfirst
      cases result with
      | ok a => exact IsTrans.trans _ _ _ hfirst (hf a m')
      | error e => exact hfirst

end Within

theorem within_ite {R : Machine → Machine → Prop} {p : Prop} [Decidable p] {x y : Exec α}
    (hx : Within R x) (hy : Within R y) : Within R (if p then x else y) := by
  by_cases hp : p
  · rwa [if_pos hp]
  · rwa [if_neg hp]

theorem Within.steady {x : Exec α} (h : Within Quiet x) : Within Steady x :=
  fun m => (h m).steady

theorem quiet_tick (limits : Limits) : Within Quiet (tick limits) := by
  intro m
  rw [machine_tick]
  exact ⟨⟨rfl, List.prefix_rfl, List.prefix_rfl, Nat.le_succ _⟩, rfl⟩

theorem quiet_perform (request : Request) : Within Quiet (perform request) := by
  intro m
  have hframe := perform_frame request m
  have hlog : m.log.toList <+: (perform request m).2.log.toList := by
    rcases perform_cases request m with ⟨entry, -, hpush⟩ | ⟨-, hsame⟩
    · rw [hpush, Array.toList_push]
      exact List.prefix_append _ _
    · exact hsame ▸ List.prefix_rfl
  have henv := hframe.1
  have hsteps := hframe.2
  constructor
  · constructor
    · rw [henv]
    · exact henv ▸ List.prefix_rfl
    · exact hlog
    · exact Nat.le_of_eq hsteps.symm
  · rw [henv]

end Exec

namespace Environment

/-- A change to the environment that statements may make. -/
structure Extends (e e' : Environment) : Prop where
  frames : e'.frames = e.frames
  functions : e.functions <+: e'.functions
  bound : ∀ x, e.isBound x → e'.isBound x

theorem extends_bind (e : Environment) (name : String) (value : Value) :
    e.Extends { e with vars := Bindings.bind name value e.vars } where
  frames := rfl
  functions := List.prefix_rfl
  bound := by
    intro x hx
    unfold isBound at hx ⊢
    rw [Bindings.lookup_bind]
    by_cases hname : x = name
    · rw [if_pos hname]
      rfl
    · rwa [if_neg hname]

theorem extends_of_declare {e e' : Environment} {name : String} {value : Value}
    (h : e.declare name value = .ok e') : e.Extends e' := by
  unfold declare at h
  by_cases hbound : e.isBound name
  · simp [hbound] at h
  · rw [if_neg hbound] at h
    cases h
    exact extends_bind e name value

theorem extends_of_assign {e e' : Environment} {name : String} {value : Value}
    (h : e.assign name value = .ok e') : e.Extends e' := by
  unfold assign at h
  by_cases hbound : e.isBound name
  · rw [if_pos hbound] at h
    cases h
    exact extends_bind e name value
  · simp [hbound] at h

theorem extends_of_define {e e' : Environment} {f : Function} (h : e.define f = .ok e') :
    e.Extends e' := by
  unfold define at h
  by_cases htaken : e.isBound f.name || (e.functions.lookup f.name).isSome
  · simp [htaken] at h
  · rw [if_neg htaken] at h
    cases h
    exact ⟨rfl, List.prefix_append _ _, fun _ hx => hx⟩

end Environment

namespace Exec

open Machine

variable {α : Type}

theorem steady_update {f : Environment → Except Fault Environment}
    (hf : ∀ e e', f e = .ok e' → e.Extends e') : Within Steady (update f) := by
  intro m
  unfold update
  cases henv : f m.env with
  | ok env =>
      have hext := hf m.env env henv
      exact ⟨⟨hext.frames, hext.functions, List.prefix_rfl, Nat.le_refl _⟩, hext.bound⟩
  | error e => exact refl m

/-- What the body of a call does to its variables is undone when its frame is dropped, whether the
body came to an end or to a fault. -/
theorem quiet_inFrame (params : List (String × Value)) {body : Exec α}
    (hbody : Within Steady body) : Within Quiet (inFrame params body) := by
  intro m
  have hafter := hbody { m with env := m.env.pushFrame params }
  have hdef : (inFrame params body m).2 =
      { (body { m with env := m.env.pushFrame params }).2 with
        env := (body { m with env := m.env.pushFrame params }).2.env.popFrame } := rfl
  rw [hdef]
  -- the frame on top is the one that was pushed, since the body has given back all of its own
  generalize (body { m with env := m.env.pushFrame params }).2 = m' at hafter
  have hframes : m'.env.frames = m.env.vars :: m.env.frames := hafter.frames
  have hpop : m'.env.popFrame =
      { m'.env with vars := m.env.vars, frames := m.env.frames } := by
    rw [Environment.popFrame, hframes]
  rw [hpop]
  exact ⟨⟨rfl, hafter.functions, hafter.log, hafter.steps⟩, rfl⟩

end Exec

/-! ## Expressions -/

open Exec Machine

section Expressions

variable {limits : Limits} {call : Caller}

mutual

theorem Expr.quiet_eval (hcall : ∀ f values, Within Quiet (call f values)) (e : Expr) :
    Within Quiet (e.eval limits call) := by
  match e with
  | .number _ _ | .text _ _ | .bool _ _ | .none _ =>
      rw [Expr.eval]
      exact within_pure _
  | .list _ items =>
      rw [Expr.eval]
      exact (Expr.quiet_evalAll hcall items).bind fun values => within_lift _
  | .name _ x =>
      rw [Expr.eval]
      exact within_ask _
  | .call _ callee args =>
      rw [Expr.eval]
      refine (within_ask _).bind fun f => within_ite ?_ (within_fail _)
      exact (Expr.quiet_evalAll hcall args).bind fun values => hcall f values
  | .builtin _ callee args =>
      rw [Expr.eval]
      refine within_ite ?_ (within_fail _)
      refine (Expr.quiet_evalAll hcall args).bind fun values => ?_
      exact (within_lift _).bind fun request => quiet_perform request
  | .index _ target position =>
      rw [Expr.eval]
      refine (Expr.quiet_eval hcall target).bind fun t => ?_
      exact (Expr.quiet_eval hcall position).bind fun p => within_lift _
  | .binary _ op left right =>
      rw [Expr.eval]
      refine (Expr.quiet_eval hcall left).bind fun a => ?_
      exact (Expr.quiet_eval hcall right).bind fun b => within_lift _
  | .unary _ op operand =>
      rw [Expr.eval]
      exact (Expr.quiet_eval hcall operand).bind fun a => within_lift _
  | .paren _ inner =>
      rw [Expr.eval]
      exact Expr.quiet_eval hcall inner

theorem Expr.quiet_evalAll (hcall : ∀ f values, Within Quiet (call f values))
    (items : List Expr) : Within Quiet (Expr.evalAll limits call items) := by
  match items with
  | [] =>
      rw [Expr.evalAll]
      exact within_pure _
  | e :: rest =>
      rw [Expr.evalAll]
      refine (Expr.quiet_eval hcall e).bind fun v => ?_
      exact (Expr.quiet_evalAll hcall rest).bind fun vs => within_pure _

end

theorem Expr.quiet_holds (hcall : ∀ f values, Within Quiet (call f values)) (e : Expr) :
    Within Quiet (e.holds limits call) := by
  rw [Expr.holds]
  exact (Expr.quiet_eval hcall e).bind fun v => within_lift _

end Expressions

/-! ## Statements -/

section Statements

variable {limits : Limits} {call : Caller}

theorem steady_iterate {condition : Exec Bool} {body : Exec Flow}
    (hcondition : Within Steady condition) (hbody : Within Steady body) (rounds : Nat) :
    Within Steady (iterate limits condition body rounds) := by
  induction rounds with
  | zero => exact within_of_same fun _ => rfl
  | succ rounds ih =>
      rw [Config.iterate_succ]
      refine hcondition.bind fun holds => within_ite ?_ (within_pure _)
      refine (quiet_tick limits).steady.bind fun _ => hbody.bind fun flow => ?_
      cases flow with
      | next => exact ih
      | returned v => exact within_pure _

theorem steady_repeatWhile {condition : Exec Bool} {body : Exec Flow}
    (hcondition : Within Steady condition) (hbody : Within Steady body) :
    Within Steady (repeatWhile limits condition body) :=
  fun m => steady_iterate hcondition hbody _ m

mutual

theorem Stmt.steady_exec (hcall : ∀ f values, Within Quiet (call f values)) (s : Stmt) :
    Within Steady (s.exec limits call) := by
  have htick : Within Steady (tick limits) := (quiet_tick limits).steady
  match s with
  | .var _ name value =>
      rw [Stmt.exec]
      refine htick.bind fun _ => (Expr.quiet_eval hcall value).steady.bind fun v => ?_
      refine (steady_update fun _ _ h => ?_).bind fun _ => within_pure _
      exact Environment.extends_of_declare h
  | .assign _ name value =>
      rw [Stmt.exec]
      refine htick.bind fun _ => (Expr.quiet_eval hcall value).steady.bind fun v => ?_
      refine (steady_update fun _ _ h => ?_).bind fun _ => within_pure _
      exact Environment.extends_of_assign h
  | .func _ name params body =>
      rw [Stmt.exec]
      refine htick.bind fun _ => (steady_update fun _ _ h => ?_).bind fun _ => within_pure _
      exact Environment.extends_of_define h
  | .choose _ branches =>
      rw [Stmt.exec]
      exact htick.bind fun _ => Stmt.steady_execBranches hcall branches
  | .loop _ condition body =>
      rw [Stmt.exec]
      refine htick.bind fun _ => ?_
      exact steady_repeatWhile (Expr.quiet_holds hcall condition).steady
        (Stmt.steady_execBlock hcall body)
  | .giveBack _ (some value) =>
      rw [Stmt.exec]
      refine htick.bind fun _ => (Expr.quiet_eval hcall value).steady.bind fun v => ?_
      exact within_pure _
  | .giveBack _ none =>
      rw [Stmt.exec]
      exact htick.bind fun _ => within_pure _
  | .expr _ value =>
      rw [Stmt.exec]
      refine htick.bind fun _ => (Expr.quiet_eval hcall value).steady.bind fun v => ?_
      exact within_pure _

theorem Stmt.steady_execAll (hcall : ∀ f values, Within Quiet (call f values))
    (stmts : List Stmt) : Within Steady (Stmt.execAll limits call stmts) := by
  match stmts with
  | [] =>
      rw [Stmt.execAll]
      exact within_pure _
  | s :: rest =>
      rw [Stmt.execAll]
      refine (Stmt.steady_exec hcall s).bind fun flow => ?_
      cases flow with
      | next => exact Stmt.steady_execAll hcall rest
      | returned v => exact within_pure _

theorem Stmt.steady_execBlock (hcall : ∀ f values, Within Quiet (call f values))
    (body : Block) : Within Steady (Stmt.execBlock limits call body) := by
  match body with
  | .mk _ stmts =>
      rw [Stmt.execBlock]
      exact Stmt.steady_execAll hcall stmts

theorem Stmt.steady_execBranches (hcall : ∀ f values, Within Quiet (call f values))
    (branches : Branches) : Within Steady (Stmt.execBranches limits call branches) := by
  match branches with
  | .done =>
      rw [Stmt.execBranches]
      exact within_pure _
  | .otherwise body =>
      rw [Stmt.execBranches]
      exact Stmt.steady_execBlock hcall body
  | .branch condition body rest =>
      rw [Stmt.execBranches]
      refine (Expr.quiet_holds hcall condition).steady.bind fun holds => within_ite ?_ ?_
      · exact Stmt.steady_execBlock hcall body
      · exact Stmt.steady_execBranches hcall rest

end

end Statements

/-! ## Calls -/

/-- By induction on the calls that may still be opened: the body of a call is steady because the
calls inside it are quiet. -/
theorem quiet_callWithin (limits : Limits) (depth : Nat) (f : Function) (values : List Value) :
    Within Quiet (callWithin limits depth f values) := by
  induction depth generalizing f values with
  | zero => exact within_fail _
  | succ depth ih =>
      have hbody : Within Steady (Stmt.execAll limits (callWithin limits depth) f.body) :=
        Stmt.steady_execAll ih f.body
      exact (quiet_inFrame (f.params.zip values) hbody).bind fun flow => within_pure _

theorem quiet_evaluate (limits : Limits) (e : Expr) : Within Quiet (evaluate limits e) :=
  fun m => Expr.quiet_eval (quiet_callWithin limits (m.callsLeft limits)) e m

theorem steady_execute (limits : Limits) (stmts : List Stmt) :
    Within Steady (execute limits stmts) :=
  fun m => Stmt.steady_execAll (quiet_callWithin limits (m.callsLeft limits)) stmts m

/-- Whatever the result of an expression, a fault in some call included, the variables and the saved
bindings are as they were, no entry of the function table is changed or lost, the log is continued
and no step is given back.  Whatever the result of statements, the saved bindings are as they were
and every variable that was bound is bound. -/
theorem calls_keep_bindings (limits : Limits) (m : Machine) :
    (∀ e : Expr,
      let after := (evaluate limits e m).2
      after.env.vars = m.env.vars ∧
      after.env.frames = m.env.frames ∧
      m.env.functions <+: after.env.functions ∧
      (∀ name f, m.env.function name = .ok f → after.env.function name = .ok f) ∧
      m.log.toList <+: after.log.toList ∧
      m.steps ≤ after.steps) ∧
    (∀ stmts : List Stmt,
      let after := (execute limits stmts m).2
      after.env.frames = m.env.frames ∧
      ∀ x, m.env.isBound x → after.env.isBound x) := by
  constructor
  · intro e after
    have hquiet : Quiet m after := quiet_evaluate limits e m
    refine ⟨hquiet.vars, hquiet.frames, hquiet.functions, ?_, hquiet.log, hquiet.steps⟩
    intro name f hf
    unfold Environment.function at hf ⊢
    cases hlookup : m.env.functions.lookup name with
    | none => simp [hlookup] at hf
    | some g =>
        rw [hlookup] at hf
        rw [hquiet.lookup_functions hlookup]
        exact hf
  · intro stmts after
    have hsteady : Steady m after := steady_execute limits stmts m
    exact ⟨hsteady.frames, hsteady.bound⟩

end KitchenScript
