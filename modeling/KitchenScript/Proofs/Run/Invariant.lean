import KitchenScript.Proofs.Run.Stack

/-!
# What a step can do

Every step is one of six changes.  From this follows what holds all along a run: as many bindings
are saved as calls are pending, no more of them than the limits allow, and the step budget is
exceeded only by the step whose fault ends the run.
-/

namespace KitchenScript

/-! ## Ordinary faults

Only spending a step can exceed the step budget, and only a call with the wrong number of arguments
is a fault of arity.  Whatever else goes wrong is another fault. -/

def InTime {α : Type} (result : Except Fault α) : Prop :=
  ∀ n, result ≠ .error (.stepLimitExceeded n)

def Ordinary {α : Type} (result : Except Fault α) : Prop :=
  InTime result ∧ ∀ x n m, result ≠ .error (.arity x n m)

section Ordinary

variable {α β : Type}

theorem Ordinary.inTime {result : Except Fault α} (h : Ordinary result) : InTime result :=
  h.1

theorem ordinary_ok (a : α) : Ordinary (.ok a) :=
  ⟨nofun, nofun⟩

theorem ordinary_error {e : Fault} (hsteps : ∀ n, e ≠ .stepLimitExceeded n)
    (harity : ∀ x n m, e ≠ .arity x n m) : Ordinary (.error e : Except Fault α) :=
  ⟨fun n h => hsteps n (Except.error.inj h), fun x n m h => harity x n m (Except.error.inj h)⟩

theorem Ordinary.bind {x : Except Fault α} {f : α → Except Fault β} (hx : Ordinary x)
    (hf : ∀ a, Ordinary (f a)) : Ordinary (x >>= f) := by
  cases x with
  | ok a => exact hf a
  | error e =>
      apply ordinary_error
      · intro n h
        exact hx.1 n (congrArg Except.error h)
      · intro y n m h
        exact hx.2 y n m (congrArg Except.error h)

theorem ordinary_ite {p : Prop} [Decidable p] {x y : Except Fault α} (hx : Ordinary x)
    (hy : Ordinary y) : Ordinary (if p then x else y) := by
  by_cases hp : p
  · rwa [if_pos hp]
  · rwa [if_neg hp]

end Ordinary

namespace Value

theorem ordinary_asBool (v : Value) : Ordinary v.asBool := by
  cases v <;> exact ⟨nofun, nofun⟩

theorem ordinary_asNumber (v : Value) : Ordinary v.asNumber := by
  cases v <;> exact ⟨nofun, nofun⟩

theorem ordinary_asText (v : Value) : Ordinary v.asText := by
  cases v <;> exact ⟨nofun, nofun⟩

theorem ordinary_asList (v : Value) : Ordinary v.asList := by
  cases v <;> exact ⟨nofun, nofun⟩

theorem ordinary_ofItems (items : List Value) : Ordinary (ofItems items) := by
  unfold ofItems
  dsimp only
  split
  · exact ordinary_error (by simp) (by simp)
  · exact ordinary_ok _

end Value

theorem ordinary_inRange (n : Option Number) : Ordinary (inRange n) := by
  cases n with
  | none => exact ordinary_error (by simp) (by simp)
  | some n => exact ordinary_ok _

theorem ordinary_arithmetic (op : Number → Number → Option Number) (a b : Value) :
    Ordinary (arithmetic op a b) :=
  (Value.ordinary_asNumber a).bind fun _ => (Value.ordinary_asNumber b).bind fun _ =>
    ordinary_inRange _

theorem ordinary_quotient (op : Number → Number → Option Number) (a b : Value) :
    Ordinary (quotient op a b) :=
  (Value.ordinary_asNumber a).bind fun _ => (Value.ordinary_asNumber b).bind fun _ =>
    ordinary_ite (ordinary_error (by simp) (by simp)) (ordinary_inRange _)

theorem ordinary_comparison (test : Int → Int → Bool) (a b : Value) :
    Ordinary (comparison test a b) :=
  (Value.ordinary_asNumber a).bind fun _ => (Value.ordinary_asNumber b).bind fun _ =>
    ordinary_ok _

theorem ordinary_connective (op : Bool → Bool → Bool) (a b : Value) :
    Ordinary (connective op a b) :=
  (Value.ordinary_asBool a).bind fun _ => (Value.ordinary_asBool b).bind fun _ => ordinary_ok _

theorem ordinary_concat (limit : Nat) (a b : String) : Ordinary (concat limit a b) :=
  ordinary_ite (ordinary_error (by simp) (by simp)) (ordinary_ok _)

theorem BinaryOp.ordinary_apply (limit : Nat) (op : BinaryOp) (a b : Value) :
    Ordinary (op.apply limit a b) := by
  cases op with
  | add =>
      cases a with
      | text s => exact (Value.ordinary_asText b).bind fun t => ordinary_concat limit s t
      | _ => exact ordinary_arithmetic _ _ b
  | sub | mul => exact ordinary_arithmetic _ a b
  | div | rem => exact ordinary_quotient _ a b
  | equal | notEqual => exact ordinary_ok _
  | less | lessEqual | greater | greaterEqual =>
      unfold apply
      exact ordinary_comparison _ a b
  | and | or => exact ordinary_connective _ a b

theorem UnaryOp.ordinary_apply (op : UnaryOp) (a : Value) : Ordinary (op.apply a) := by
  cases op with
  | not => exact (Value.ordinary_asBool a).bind fun _ => ordinary_ok _
  | neg => exact (Value.ordinary_asNumber a).bind fun _ => ordinary_inRange _
  | len => exact (Value.ordinary_asList a).bind fun _ => ordinary_inRange _

theorem ordinary_itemAt (target position : Value) : Ordinary (itemAt target position) := by
  refine (Value.ordinary_asNumber position).bind fun index =>
    (Value.ordinary_asList target).bind fun items => ?_
  dsimp only
  split
  · exact ordinary_ok _
  · exact ordinary_error (by simp) (by simp)

namespace Builtin

theorem ordinary_request {b : Builtin} {args : List Value} (h : args.length = b.arity) :
    Ordinary (b.request args) := by
  cases b with
  | goto | get | activate | take =>
      obtain ⟨v, rfl⟩ := List.length_eq_one_iff.mp h
      exact (Value.ordinary_asText v).bind fun _ => ordinary_ok _
  | place =>
      match args, h with
      | [u, v, w], _ =>
          exact (Value.ordinary_asText u).bind fun _ => (Value.ordinary_asText v).bind fun _ =>
            (Value.ordinary_asNumber w).bind fun _ => ordinary_ok _
  | deliver =>
      rw [List.length_eq_zero_iff.mp h]
      exact ordinary_ok _
  | print =>
      obtain ⟨v, rfl⟩ := List.length_eq_one_iff.mp h
      exact ordinary_ok _

theorem request_of_ne {b : Builtin} {args : List Value} (h : args.length ≠ b.arity) :
    b.request args = .error (.arity b.name b.arity args.length) := by
  unfold request
  split <;> first | rfl | exact absurd rfl h

theorem inTime_request (b : Builtin) (args : List Value) : InTime (b.request args) := by
  by_cases h : args.length = b.arity
  · exact (ordinary_request h).inTime
  · rw [request_of_ne h]
    exact nofun

end Builtin

namespace Environment

theorem ordinary_get (env : Environment) (x : String) : Ordinary (env.get x) := by
  unfold get
  split
  · exact ordinary_ok _
  · exact ordinary_error (by simp) (by simp)

theorem ordinary_function (env : Environment) (x : String) : Ordinary (env.function x) := by
  unfold function
  split
  · exact ordinary_ok _
  · exact ordinary_error (by simp) (by simp)

theorem ordinary_declare (env : Environment) (x : String) (v : Value) :
    Ordinary (env.declare x v) :=
  ordinary_ite (ordinary_error (by simp) (by simp)) (ordinary_ok _)

theorem ordinary_assign (env : Environment) (x : String) (v : Value) :
    Ordinary (env.assign x v) :=
  ordinary_ite (ordinary_ok _) (ordinary_error (by simp) (by simp))

theorem ordinary_define (env : Environment) (f : Function) : Ordinary (env.define f) :=
  ordinary_ite (ordinary_error (by simp) (by simp)) (ordinary_ok _)

theorem depth_pushFrame (env : Environment) (params : List (String × Value)) :
    (env.pushFrame params).depth = env.depth + 1 := rfl

theorem depth_popFrame (env : Environment) : env.popFrame.depth = env.depth - 1 := by
  obtain ⟨vars, frames, functions⟩ := env
  cases frames with
  | nil => rfl
  | cons _ _ => rfl

/-- An update of the environment that saves and restores nothing. -/
def KeepsFrames (env : Environment) (result : Except Fault Environment) : Prop :=
  InTime result ∧ ∀ env', result = .ok env' → env'.frames = env.frames

theorem keepsFrames_declare (env : Environment) (x : String) (v : Value) :
    env.KeepsFrames (env.declare x v) := by
  refine ⟨(ordinary_declare env x v).inTime, fun env' h => ?_⟩
  unfold declare at h
  split at h
  · cases h
  · cases h
    rfl

theorem keepsFrames_assign (env : Environment) (x : String) (v : Value) :
    env.KeepsFrames (env.assign x v) := by
  refine ⟨(ordinary_assign env x v).inTime, fun env' h => ?_⟩
  unfold assign at h
  split at h
  · cases h
    rfl
  · cases h

theorem keepsFrames_define (env : Environment) (f : Function) :
    env.KeepsFrames (env.define f) := by
  refine ⟨(ordinary_define env f).inTime, fun env' h => ?_⟩
  unfold define at h
  split at h
  · cases h
  · cases h
    rfl

end Environment

namespace Exec

@[simp] theorem machine_tick (limits : Limits) (m : Machine) :
    (tick limits m).2 = { m with steps := m.steps + 1 } := by
  unfold tick
  dsimp only
  split <;> rfl

/-- A kitchen call leaves the environment and the steps alone. -/
theorem perform_frame (request : Request) (m : Machine) :
    (perform request m).2.env = m.env ∧ (perform request m).2.steps = m.steps := by
  cases request with
  | print v => exact ⟨rfl, rfl⟩
  | operation op =>
      unfold perform
      dsimp only
      split <;> exact ⟨rfl, rfl⟩

theorem ordinary_perform (request : Request) (m : Machine) :
    Ordinary (perform request m).1 := by
  cases request with
  | print v => exact ordinary_ok _
  | operation op =>
      unfold perform
      dsimp only
      split
      · exact ordinary_ok _
      · exact ordinary_error (by simp) (by simp)

end Exec

theorem Focus.eq_error_of_eq_fault {α : Type} {inject : α → Focus}
    {result : Except Fault α} {e : Fault} (hinject : ∀ a, inject a ≠ .fault e)
    (h : Focus.of inject result = .fault e) : result = .error e := by
  cases result with
  | ok a => exact absurd h (hinject a)
  | error e' => exact congrArg Except.error (Focus.fault.inj h)

theorem InTime.fault_ne {α : Type} {result : Except Fault α} {e : Fault} (h : InTime result)
    (he : result = .error e) (n : Nat) : Focus.fault e ≠ .fault (.stepLimitExceeded n) := by
  intro hfault
  rw [Focus.fault.inj hfault] at he
  exact h n he

/-! ## The changes -/

namespace Config

/-- The calls that are pending. -/
def pending (stack : List Frame) : Nat :=
  stack.countP Frame.isCall

/-- The machine after a frame has been dropped by a fault. -/
def unwound (frame : Frame) (m : Machine) : Machine :=
  if frame.isCall then { m with env := m.env.popFrame } else m

def Faulted (c : Config) : Prop :=
  ∃ e, c.focus = .fault e

inductive Change (limits : Limits) (c : Config) : Config → Prop where
  | unwind {e : Fault} {frame : Frame} {stack : List Frame} (hfocus : c.focus = .fault e)
      (hstack : c.stack = frame :: stack) :
      Change limits c ⟨.fault e, stack, unwound frame c.machine⟩
  | keep {focus : Focus} {stack : List Frame} {env : Environment} (hc : ¬c.Faulted)
      (hframes : env.frames = c.machine.env.frames) (hstack : pending stack = pending c.stack)
      (hfocus : ∀ n, focus ≠ .fault (.stepLimitExceeded n)) :
      Change limits c ⟨focus, stack, { c.machine with env := env }⟩
  | spend {focus : Focus} {stack : List Frame} (hc : ¬c.Faulted)
      (hstack : pending stack = pending c.stack) (hfocus : ∀ e, focus ≠ .fault e) :
      Change limits c (settle (fun _ => focus) (Exec.tick limits c.machine) stack)
  | act {request : Request} {stack : List Frame} (hc : ¬c.Faulted)
      (hstack : pending stack = pending c.stack) :
      Change limits c (settle .value (Exec.perform request c.machine) stack)
  | enter {f : Function} {values : List Value} {stack : List Frame} (hc : ¬c.Faulted)
      (hstack : pending stack = pending c.stack)
      (hdepth : c.machine.env.depth < limits.maxCallDepth) :
      Change limits c ⟨.stmts f.body, .call :: stack,
        { c.machine with env := c.machine.env.pushFrame (f.params.zip values) }⟩
  | leave {focus : Focus} {stack : List Frame} (hc : ¬c.Faulted)
      (hstack : c.stack = .call :: stack) (hfocus : ∀ e, focus ≠ .fault e) :
      Change limits c ⟨focus, stack, { c.machine with env := c.machine.env.popFrame }⟩

section Change

variable {limits : Limits} {c : Config} {focus : Focus} {stack : List Frame}

theorem change_go (hc : ¬c.Faulted) (hstack : pending stack = pending c.stack)
    (hfocus : ∀ n, focus ≠ .fault (.stepLimitExceeded n)) :
    Change limits c ((Move.go focus stack).make limits c.machine) :=
  .keep hc rfl hstack hfocus

theorem change_of {α : Type} {inject : α → Focus} {result : Except Fault α} (hc : ¬c.Faulted)
    (hstack : pending stack = pending c.stack) (hresult : InTime result)
    (hinject : ∀ a n, inject a ≠ .fault (.stepLimitExceeded n)) :
    Change limits c ((Move.go (.of inject result) stack).make limits c.machine) := by
  apply change_go hc hstack
  intro n h
  exact hresult n (Focus.eq_error_of_eq_fault (fun a => hinject a n) h)

theorem change_change {result : Except Fault Environment} (hc : ¬c.Faulted)
    (hstack : pending stack = pending c.stack)
    (hresult : c.machine.env.KeepsFrames result) :
    Change limits c ((Move.change result stack).make limits c.machine) := by
  cases result with
  | ok env => exact .keep hc (hresult.2 env rfl) hstack (by simp)
  | error e => exact change_go hc hstack (hresult.1.fault_ne rfl)

theorem change_ofExpr (hc : ¬c.Faulted) (e : Expr) :
    Change limits c ((Move.ofExpr c.machine.env c.stack e).make limits c.machine) := by
  cases e with
  | number _ _ | text _ _ | bool _ _ | none _ | list _ _ | paren _ _ =>
      exact change_go hc rfl (by simp)
  | index _ _ _ | binary _ _ _ _ | unary _ _ _ => exact change_go hc rfl (by simp)
  | name _ x => exact change_of hc rfl (Environment.ordinary_get _ x).inTime (by simp)
  | call _ callee args =>
      apply change_of hc rfl (Environment.ordinary_function _ callee.name).inTime
      intro f n
      split <;> simp
  | builtin _ callee args =>
      rw [Move.ofExpr]
      by_cases hargs : args.length = callee.arity
      · rw [if_pos hargs]
        exact change_go hc rfl (by simp)
      · rw [if_neg hargs]
        exact change_go hc rfl (by simp)

theorem change_ofUse (hc : ¬c.Faulted) (values : List Value) (use : Use) :
    Change limits c ((Move.ofUse c.stack values use).make limits c.machine) := by
  cases use with
  | list => exact change_of hc rfl (Value.ordinary_ofItems values).inTime (by simp)
  | call f =>
      rw [Move.ofUse, Move.make]
      by_cases hdepth : c.machine.env.depth < limits.maxCallDepth
      · rw [if_pos hdepth]
        exact .enter hc rfl hdepth
      · rw [if_neg hdepth]
        exact .keep hc rfl rfl (by simp)
  | builtin b =>
      rw [Move.ofUse]
      cases hr : b.request values with
      | ok request => exact .act hc rfl
      | error e => exact change_go hc rfl ((b.inTime_request values).fault_ne hr)

theorem change_ofStmt (hc : ¬c.Faulted) (s : Stmt) :
    Change limits c ((Move.ofStmt c.machine.env c.stack s).make limits c.machine) := by
  cases s with
  | var _ _ _ | assign _ _ _ | choose _ _ | loop _ _ _ | expr _ _ =>
      exact change_go hc rfl (by simp)
  | func _ name params body => exact change_change hc rfl (Environment.keepsFrames_define _ _)
  | giveBack _ value =>
      cases value with
      | none => exact change_go hc rfl (by simp)
      | some _ => exact change_go hc rfl (by simp)

theorem change_ofBranches (hc : ¬c.Faulted) (rest : Branches) :
    Change limits c ((Move.ofBranches c.stack rest).make limits c.machine) := by
  cases rest with
  | done | otherwise _ | branch _ _ _ => exact change_go hc rfl (by simp)

theorem change_ofValue {frame : Frame} {move : Move} (v : Value) (hc : ¬c.Faulted)
    (hstack : c.stack = frame :: stack)
    (hmove : Move.ofValue c.machine.env v stack frame = some move) :
    Change limits c (move.make limits c.machine) := by
  cases frame with
  | items _ _ _ | position _ | right _ _ | giveBack | discard =>
      cases hmove
      exact change_go hc (by rw [hstack]; rfl) (by simp)
  | itemOf target =>
      cases hmove
      exact change_of hc (by rw [hstack]; rfl) (ordinary_itemAt target v).inTime (by simp)
  | operate op left =>
      cases hmove
      exact change_of hc (by rw [hstack]; rfl) (op.ordinary_apply _ left v).inTime (by simp)
  | sign op =>
      cases hmove
      exact change_of hc (by rw [hstack]; rfl) (op.ordinary_apply v).inTime (by simp)
  | declare x =>
      cases hmove
      exact change_change hc (by rw [hstack]; rfl) (Environment.keepsFrames_declare _ x v)
  | assign x =>
      cases hmove
      exact change_change hc (by rw [hstack]; rfl) (Environment.keepsFrames_assign _ x v)
  | branch body rest =>
      cases hmove
      apply change_of hc (by rw [hstack]; rfl) v.ordinary_asBool.inTime
      intro holds n
      cases holds <;> simp
  | test condition body =>
      rw [Move.ofValue] at hmove
      cases hv : v.asBool with
      | ok holds =>
          rw [hv] at hmove
          cases holds with
          | true =>
              cases hmove
              exact .spend hc (by rw [hstack]; rfl) (by simp)
          | false =>
              cases hmove
              exact change_go hc (by rw [hstack]; rfl) (by simp)
      | error e =>
          rw [hv] at hmove
          cases hmove
          exact change_go hc (by rw [hstack]; rfl) (v.ordinary_asBool.inTime.fault_ne hv)
  | round _ _ | rest _ | call => cases hmove

theorem change_ofFlow {frame : Frame} {move : Move} (f : Flow) (hc : ¬c.Faulted)
    (hstack : c.stack = frame :: stack) (hmove : Move.ofFlow f stack frame = some move) :
    Change limits c (move.make limits c.machine) := by
  cases frame with
  | rest _ | round _ _ =>
      cases f with
      | next | returned _ =>
          cases hmove
          exact change_go hc (by rw [hstack]; rfl) (by simp)
  | call =>
      cases hmove
      exact .leave hc hstack (by simp)
  | _ => cases hmove

theorem change_ofFault {frame : Frame} {e : Fault} (hfocus : c.focus = .fault e)
    (hstack : c.stack = frame :: stack) :
    Change limits c ((Move.ofFault e stack frame).make limits c.machine) := by
  have hchange : Change limits c ⟨.fault e, stack, unwound frame c.machine⟩ :=
    .unwind hfocus hstack
  cases frame <;> exact hchange

/-- Every step is one of the changes. -/
theorem change_of_step {c' : Config} (h : c.step limits = some c') : Change limits c c' := by
  obtain ⟨move, hmove, rfl⟩ := Option.map_eq_some_iff.mp h
  obtain ⟨focus, stack, m⟩ := c
  have hrunning : (∀ e, focus ≠ .fault e) → ¬Faulted ⟨focus, stack, m⟩ := by
    rintro hfocus ⟨e, he⟩
    exact hfocus e he
  cases focus with
  | expr e =>
      cases hmove
      exact change_ofExpr (hrunning (by simp)) e
  | items use done rest =>
      cases rest with
      | nil =>
          cases hmove
          exact change_ofUse (hrunning (by simp)) done use
      | cons e rest =>
          cases hmove
          exact change_go (hrunning (by simp)) rfl (by simp)
  | stmts rest =>
      cases rest with
      | nil =>
          cases hmove
          exact change_go (hrunning (by simp)) rfl (by simp)
      | cons s rest =>
          cases hmove
          exact .spend (hrunning (by simp)) rfl (by simp)
  | begun s =>
      cases hmove
      exact change_ofStmt (hrunning (by simp)) s
  | branches rest =>
      cases hmove
      exact change_ofBranches (hrunning (by simp)) rest
  | loop condition body =>
      cases hmove
      exact change_go (hrunning (by simp)) rfl (by simp)
  | value v =>
      cases stack with
      | nil => cases hmove
      | cons frame stack => exact change_ofValue v (hrunning (by simp)) rfl hmove
  | flow f =>
      cases stack with
      | nil => cases hmove
      | cons frame stack => exact change_ofFlow f (hrunning (by simp)) rfl hmove
  | fault e =>
      cases stack with
      | nil => cases hmove
      | cons frame stack =>
          cases hmove
          exact change_ofFault rfl rfl

end Change

/-! ## What holds along a run -/

theorem Leads.invariant {limits : Limits} {P : Config → Prop}
    (hstep : ∀ c c', Change limits c c' → P c → P c') {c c' : Config} (h : Leads limits c c')
    (hc : P c) : P c' := by
  induction h with
  | refl => exact hc
  | tail _ hlast ih => exact hstep _ _ (change_of_step hlast) ih

structure Sound (limits : Limits) (c : Config) : Prop where
  balanced : c.machine.env.depth = pending c.stack
  shallow : pending c.stack ≤ limits.maxCallDepth
  /-- The budget is exceeded by one step at most, and then that is the fault. -/
  budget :
    c.machine.steps ≤ limits.maxSteps ∧ (∀ n, c.focus ≠ .fault (.stepLimitExceeded n)) ∨
      c.machine.steps = limits.maxSteps + 1 ∧
        c.focus = .fault (.stepLimitExceeded limits.maxSteps)

theorem Sound.steps_le {limits : Limits} {c : Config} (h : Sound limits c) (hc : ¬c.Faulted) :
    c.machine.steps ≤ limits.maxSteps := by
  rcases h.budget with ⟨hle, -⟩ | ⟨-, hfault⟩
  · exact hle
  · exact absurd ⟨_, hfault⟩ hc

@[simp] theorem pending_call_cons (stack : List Frame) :
    pending (.call :: stack) = pending stack + 1 :=
  List.countP_cons_of_pos rfl

theorem pending_cons_of_not_call {frame : Frame} (h : frame.isCall = false)
    (stack : List Frame) : pending (frame :: stack) = pending stack := by
  simp [pending, h]

theorem eq_call_of_isCall {frame : Frame} (h : frame.isCall = true) : frame = .call := by
  cases frame <;> first | rfl | cases h

/-- The depth of what is saved follows the calls when a frame is dropped by a fault. -/
theorem depth_unwound {frame : Frame} {stack : List Frame} {m : Machine}
    (h : m.env.depth = pending (frame :: stack)) :
    (unwound frame m).env.depth = pending stack := by
  unfold unwound
  cases hframe : frame.isCall with
  | true =>
      rw [eq_call_of_isCall hframe, pending_call_cons] at h
      rw [if_pos rfl, Environment.depth_popFrame, h]
      rfl
  | false => rwa [if_neg (by simp), ← pending_cons_of_not_call hframe stack]

@[simp] theorem steps_unwound (frame : Frame) (m : Machine) :
    (unwound frame m).steps = m.steps := by
  unfold unwound
  split <;> rfl

@[simp] theorem log_unwound (frame : Frame) (m : Machine) : (unwound frame m).log = m.log := by
  unfold unwound
  split <;> rfl

@[simp] theorem kitchen_unwound (frame : Frame) (m : Machine) :
    (unwound frame m).kitchen = m.kitchen := by
  unfold unwound
  split <;> rfl

theorem pending_le_cons (frame : Frame) (stack : List Frame) :
    pending stack ≤ pending (frame :: stack) := by
  cases hframe : frame.isCall with
  | true => simp [eq_call_of_isCall hframe]
  | false => exact Nat.le_of_eq (pending_cons_of_not_call hframe stack).symm

/-- One step keeps a configuration sound. -/
theorem Sound.change {limits : Limits} {c c' : Config} (h : Sound limits c)
    (hchange : Change limits c c') : Sound limits c' := by
  have hbalanced := h.balanced
  have hshallow := h.shallow
  cases hchange with
  | @unwind e frame stack hfocus hstack =>
      rw [hstack] at hbalanced hshallow
      have hle := pending_le_cons frame stack
      refine ⟨depth_unwound hbalanced, by dsimp only; omega, ?_⟩
      have hbudget := h.budget
      rw [hfocus] at hbudget
      simpa using hbudget
  | keep hc hframes hstack hfocus =>
      refine ⟨?_, by rwa [hstack], .inl ⟨h.steps_le hc, hfocus⟩⟩
      rw [hstack, ← hbalanced, Environment.depth, Environment.depth, hframes]
  | spend hc hstack hfocus =>
      have hsteps := h.steps_le hc
      unfold Exec.tick settle
      dsimp only
      by_cases hlimit : limits.maxSteps < c.machine.steps + 1
      · rw [if_pos hlimit]
        refine ⟨by rw [hstack, ← hbalanced], by rwa [hstack], .inr ⟨?_, rfl⟩⟩
        dsimp only
        omega
      · rw [if_neg hlimit]
        refine ⟨by rw [hstack, ← hbalanced], by rwa [hstack], .inl ⟨?_, fun n => hfocus _⟩⟩
        dsimp only
        omega
  | @act request stack hc hstack =>
      have hsteps := h.steps_le hc
      obtain ⟨henv, hcount⟩ := Exec.perform_frame request c.machine
      refine ⟨?_, by rwa [settle, hstack], .inl ⟨?_, ?_⟩⟩
      · rw [settle, hstack, ← hbalanced, henv]
      · rw [settle, hcount]
        exact hsteps
      · intro n hfault
        exact (Exec.ordinary_perform request c.machine).inTime n (Focus.eq_error_of_eq_fault (by simp) hfault)
  | enter hc hstack hdepth =>
      refine ⟨?_, ?_, .inl ⟨h.steps_le hc, by simp⟩⟩
      · rw [pending_call_cons, hstack, ← hbalanced, Environment.depth_pushFrame]
      · rw [pending_call_cons, hstack]
        omega
  | leave hc hstack hfocus =>
      rw [hstack, pending_call_cons] at hbalanced hshallow
      refine ⟨?_, by dsimp only; omega, .inl ⟨h.steps_le hc, fun n => hfocus _⟩⟩
      rw [Environment.depth_popFrame, hbalanced]
      rfl

end Config

end KitchenScript
