import KitchenScript.Run.Machine
import KitchenScript.Run.Operators

/-!
# Evaluation

What expressions and statements do to the machine.  The evaluator recurses on the program tree and
is given what a call of a function does; calls are then tied together by recursion on the number of
calls that may still be opened.  A loop recurses on the rounds that the step budget allows, of which
each round spends one.
-/

namespace KitchenScript

/-- What it means to call a function with values for its parameters. -/
abbrev Caller := Function → List Value → Exec Value

/-- How a statement ends. -/
inductive Flow where
  | next
  | returned (value : Value)

namespace Expr

mutual

/-- The value of an expression.  Operands and arguments are evaluated from left to right, and both
operands of a binary operator always are. -/
def eval (limits : Limits) (call : Caller) : Expr → Exec Value
  | number _ n => pure (.number n)
  | text _ s => pure (.text s)
  | bool _ b => pure (.bool b)
  | none _ => pure .none
  | list _ items => do
    let values ← evalAll limits call items
    Exec.lift (Value.ofItems values)
  | name _ x => Exec.ask (·.get x)
  | .call _ callee args => do
    let f ← Exec.ask (·.function callee.name)
    if args.length = f.params.length then
      let values ← evalAll limits call args
      call f values
    else
      Exec.fail (.arity callee.name f.params.length args.length)
  | builtin _ callee args => do
    if args.length = callee.arity then
      let values ← evalAll limits call args
      let request ← Exec.lift (callee.request values)
      Exec.perform request
    else
      Exec.fail (.arity callee.name callee.arity args.length)
  | index _ target position => do
    let t ← eval limits call target
    let p ← eval limits call position
    Exec.lift (itemAt t p)
  | binary _ op left right => do
    let a ← eval limits call left
    let b ← eval limits call right
    Exec.lift (op.apply limits.maxStringLen a b)
  | unary _ op operand => do
    let a ← eval limits call operand
    Exec.lift (op.apply a)
  | paren _ inner => eval limits call inner

def evalAll (limits : Limits) (call : Caller) : List Expr → Exec (List Value)
  | [] => pure []
  | e :: rest => do
    let v ← eval limits call e
    let vs ← evalAll limits call rest
    pure (v :: vs)

end

/-- The value of a condition. -/
def holds (limits : Limits) (call : Caller) (condition : Expr) : Exec Bool := do
  let v ← eval limits call condition
  Exec.lift v.asBool

end Expr

/-- Rounds of a loop: while the condition holds, spend a step and run the body.  A round spends a
step, so `rounds` runs out only when the budget does. -/
def iterate (limits : Limits) (condition : Exec Bool) (body : Exec Flow) :
    Nat → Machine → Except Fault Flow × Machine
  | 0, m => (.error (.stepLimitExceeded limits.maxSteps), m)
  | rounds + 1, m =>
    match condition m with
    | (.error e, m) => (.error e, m)
    | (.ok false, m) => (.ok .next, m)
    | (.ok true, m) =>
      match Exec.tick limits m with
      | (.error e, m) => (.error e, m)
      | (.ok _, m) =>
        match body m with
        | (.ok .next, m) => iterate limits condition body rounds m
        | (.ok (.returned v), m) => (.ok (.returned v), m)
        | (.error e, m) => (.error e, m)

/-- A loop of the program. -/
def repeatWhile (limits : Limits) (condition : Exec Bool) (body : Exec Flow) : Exec Flow :=
  fun m => iterate limits condition body (limits.maxSteps + 1 - m.steps) m

namespace Stmt

mutual

/-- Every statement spends a step before it does anything. -/
def exec (limits : Limits) (call : Caller) : Stmt → Exec Flow
  | var _ name value => do
    Exec.tick limits
    let v ← value.eval limits call
    Exec.update (·.declare name.name v)
    pure .next
  | assign _ name value => do
    Exec.tick limits
    let v ← value.eval limits call
    Exec.update (·.assign name.name v)
    pure .next
  | func _ name params body => do
    Exec.tick limits
    Exec.update (·.define ⟨name.name, params.map Ident.name, body.stmts⟩)
    pure .next
  | choose _ branches => do
    Exec.tick limits
    execBranches limits call branches
  | loop _ condition body => do
    Exec.tick limits
    repeatWhile limits (condition.holds limits call) (execBlock limits call body)
  | giveBack _ (some value) => do
    Exec.tick limits
    let v ← value.eval limits call
    pure (.returned v)
  | giveBack _ none => do
    Exec.tick limits
    pure (.returned .none)
  | expr _ value => do
    Exec.tick limits
    let _ ← value.eval limits call
    pure .next

/-- Statements in order, up to the first that returns. -/
def execAll (limits : Limits) (call : Caller) : List Stmt → Exec Flow
  | [] => pure .next
  | s :: rest => do
    match ← exec limits call s with
    | .next => execAll limits call rest
    | .returned v => pure (.returned v)

def execBlock (limits : Limits) (call : Caller) : Block → Exec Flow
  | .mk _ stmts => execAll limits call stmts

/-- The block of the first condition that holds. -/
def execBranches (limits : Limits) (call : Caller) : Branches → Exec Flow
  | .done => pure .next
  | .otherwise body => execBlock limits call body
  | .branch condition body rest => do
    if ← condition.holds limits call then
      execBlock limits call body
    else
      execBranches limits call rest

end

end Stmt

namespace Flow

/-- The value of a call whose body ended like this. -/
def result : Flow → Value
  | next => .none
  | returned v => v

end Flow

/-- Call a function while `depth` more calls may be opened inside each other. -/
def callWithin (limits : Limits) : Nat → Caller
  | 0, _, _ => Exec.fail (.callDepthExceeded limits.maxCallDepth)
  | depth + 1, f, values => do
    let flow ← Exec.inFrame (f.params.zip values) (Stmt.execAll limits (callWithin limits depth) f.body)
    pure flow.result

namespace Machine

/-- The calls that may still be opened from this machine on. -/
def callsLeft (limits : Limits) (m : Machine) : Nat :=
  limits.maxCallDepth - m.env.depth

end Machine

/-- Evaluate an expression on a machine. -/
def evaluate (limits : Limits) (e : Expr) : Exec Value :=
  fun m => e.eval limits (callWithin limits (m.callsLeft limits)) m

/-- Run statements on a machine. -/
def execute (limits : Limits) (stmts : List Stmt) : Exec Flow :=
  fun m => Stmt.execAll limits (callWithin limits (m.callsLeft limits)) stmts m

end KitchenScript
