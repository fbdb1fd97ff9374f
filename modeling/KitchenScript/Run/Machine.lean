import KitchenScript.Run.Environment
import KitchenScript.Run.Operation

/-!
# The machine

The state of a run: the environment, the kitchen, the log and the steps spent.  An action of the
machine gives a result or a fault, and in both cases the machine as the action left it, so that what
was done before a fault stays done.
-/

namespace KitchenScript

/-- The budget of a run. -/
structure Limits where
  /-- Executed statements and rounds of loops together.  The steps spent are a natural number; a
  counter of 64 bits agrees with it under every budget below `2 ^ 64 - 1`. -/
  maxSteps : Nat
  /-- Calls of functions inside each other. -/
  maxCallDepth : Nat
  /-- The length in bytes of a text that concatenation may build. -/
  maxStringLen : Nat
deriving DecidableEq

namespace Limits

/-- The budget where none is given. -/
def standard : Limits :=
  ⟨100000, 64, 65536⟩

end Limits

structure Machine where
  env : Environment
  kitchen : Kitchen
  log : Array Entry
  steps : Nat

namespace Machine

def start (kitchen : Kitchen) (env : Environment) : Machine :=
  ⟨env, kitchen, #[], 0⟩

end Machine

def Exec (α : Type) : Type :=
  Machine → Except Fault α × Machine

namespace Exec

@[inline] def pure (a : α) : Exec α :=
  fun m => (.ok a, m)

@[inline] def bind (x : Exec α) (f : α → Exec β) : Exec β :=
  fun m =>
    match x m with
    | (.ok a, m) => f a m
    | (.error e, m) => (.error e, m)

instance : Monad Exec where
  pure := pure
  bind := bind

def fail (fault : Fault) : Exec α :=
  fun m => (.error fault, m)

/-- A result that does not depend on the machine. -/
def lift (result : Except Fault α) : Exec α :=
  fun m => (result, m)

/-- A result read off the environment. -/
def ask (f : Environment → Except Fault α) : Exec α :=
  fun m => (f m.env, m)

/-- Change the environment, which stays as it is on a fault. -/
def update (f : Environment → Except Fault Environment) : Exec Unit :=
  fun m =>
    match f m.env with
    | .ok env => (.ok (), { m with env := env })
    | .error e => (.error e, m)

/-- Spend one step.  The step is counted also when it is one too many. -/
def tick (limits : Limits) : Exec Unit :=
  fun m =>
    let m := { m with steps := m.steps + 1 }
    if limits.maxSteps < m.steps then (.error (.stepLimitExceeded limits.maxSteps), m)
    else (.ok (), m)

/-- Do what a kitchen call asks for.  Every call that succeeds writes one entry. -/
def perform : Request → Exec Value
  | .operation op => fun m =>
    match op.carryOut m.kitchen with
    | .ok effect =>
      (.ok effect.answer, { m with kitchen := effect.kitchen, log := m.log.push effect.entry })
    | .error e => (.error (.world e), m)
  | .print value => fun m =>
    (.ok .none, { m with log := m.log.push ⟨.noOp, value.render⟩ })

/-- Run the body of a call in its own frame, which is gone afterwards, also after a fault. -/
def inFrame (params : List (String × Value)) (body : Exec α) : Exec α :=
  fun m =>
    let (result, m) := body { m with env := m.env.pushFrame params }
    (result, { m with env := m.env.popFrame })

end Exec

end KitchenScript
