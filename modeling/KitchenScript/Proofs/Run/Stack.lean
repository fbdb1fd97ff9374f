import KitchenScript.Run.Report
import Mathlib.Logic.Relation

/-!
# Runs in single steps

The same evaluation once more, with its pending work on an explicit stack.  A configuration says
what is looked at, what is to be done with the result, and the machine; one step does at most one
thing to the machine.  There is no bound on the number of steps and none on the rounds of a loop.

A step is found in two parts.  The move of a configuration depends on the configuration alone, and
the limits enter only where a move is made.
-/

namespace KitchenScript

/-- What the values of a list of expressions are for. -/
inductive Use where
  | list
  | call (f : Function)
  | builtin (b : Builtin)

inductive Focus where
  | expr (e : Expr)
  | items (use : Use) (done : List Value) (rest : List Expr)
  | value (v : Value)
  | stmts (rest : List Stmt)
  /-- A statement whose step has been spent. -/
  | begun (s : Stmt)
  | branches (rest : Branches)
  | loop (condition : Expr) (body : Block)
  | flow (f : Flow)
  | fault (e : Fault)

namespace Focus

def of {α : Type} (inject : α → Focus) : Except Fault α → Focus
  | .ok a => inject a
  | .error e => .fault e

end Focus

/-- Work that waits for a value or for the end of statements. -/
inductive Frame where
  | items (use : Use) (done : List Value) (rest : List Expr)
  | position (e : Expr)
  | itemOf (target : Value)
  | right (op : BinaryOp) (e : Expr)
  | operate (op : BinaryOp) (left : Value)
  | sign (op : UnaryOp)
  | declare (name : String)
  | assign (name : String)
  | giveBack
  | discard
  | branch (body : Block) (rest : Branches)
  | test (condition : Expr) (body : Block)
  | round (condition : Expr) (body : Block)
  | rest (stmts : List Stmt)
  /-- A call whose bindings are given back when its body has ended. -/
  | call

namespace Frame

def isCall : Frame → Bool
  | call => true
  | _ => false

end Frame

structure Config where
  focus : Focus
  stack : List Frame
  machine : Machine

inductive Move where
  | go (focus : Focus) (stack : List Frame)
  | set (env : Environment) (focus : Focus) (stack : List Frame)
  /-- Spend a step. -/
  | spend (focus : Focus) (stack : List Frame)
  | operate (op : BinaryOp) (left right : Value) (stack : List Frame)
  | act (request : Request) (stack : List Frame)
  | enter (f : Function) (values : List Value) (stack : List Frame)
  | leave (focus : Focus) (stack : List Frame)

namespace Move

def change (result : Except Fault Environment) (stack : List Frame) : Move :=
  match result with
  | .ok env => .set env (.flow .next) stack
  | .error e => .go (.fault e) stack

def ofExpr (env : Environment) (stack : List Frame) : Expr → Move
  | .number _ n => .go (.value (.number n)) stack
  | .text _ s => .go (.value (.text s)) stack
  | .bool _ b => .go (.value (.bool b)) stack
  | .none _ => .go (.value .none) stack
  | .list _ items => .go (.items .list [] items) stack
  | .name _ x => .go (.of .value (env.get x)) stack
  | .call _ callee args =>
    let check := fun f : Function =>
      if args.length = f.params.length then Focus.items (.call f) [] args
      else .fault (.arity callee.name f.params.length args.length)
    .go (.of check (env.function callee.name)) stack
  | .builtin _ callee args =>
    if args.length = callee.arity then .go (.items (.builtin callee) [] args) stack
    else .go (.fault (.arity callee.name callee.arity args.length)) stack
  | .index _ target position => .go (.expr target) (.position position :: stack)
  | .binary _ op left right => .go (.expr left) (.right op right :: stack)
  | .unary _ op operand => .go (.expr operand) (.sign op :: stack)
  | .paren _ inner => .go (.expr inner) stack

def ofUse (stack : List Frame) (values : List Value) : Use → Move
  | .list => .go (.of .value (Value.ofItems values)) stack
  | .call f => .enter f values stack
  | .builtin b =>
    match b.request values with
    | .ok request => .act request stack
    | .error e => .go (.fault e) stack

def ofStmt (env : Environment) (stack : List Frame) : Stmt → Move
  | .var _ name value => .go (.expr value) (.declare name.name :: stack)
  | .assign _ name value => .go (.expr value) (.assign name.name :: stack)
  | .func _ name params body =>
    change (env.define ⟨name.name, params.map Ident.name, body.stmts⟩) stack
  | .choose _ branches => .go (.branches branches) stack
  | .loop _ condition body => .go (.loop condition body) stack
  | .giveBack _ (some value) => .go (.expr value) (.giveBack :: stack)
  | .giveBack _ none => .go (.flow (.returned .none)) stack
  | .expr _ value => .go (.expr value) (.discard :: stack)

def ofBranches (stack : List Frame) : Branches → Move
  | .done => .go (.flow .next) stack
  | .otherwise body => .go (.stmts body.stmts) stack
  | .branch condition body rest => .go (.expr condition) (.branch body rest :: stack)

/-- A value goes to the frame that waits for it. -/
def ofValue (env : Environment) (v : Value) (stack : List Frame) : Frame → Option Move
  | .items use done rest => some (.go (.items use (done ++ [v]) rest) stack)
  | .position e => some (.go (.expr e) (.itemOf v :: stack))
  | .itemOf target => some (.go (.of .value (itemAt target v)) stack)
  | .right op e => some (.go (.expr e) (.operate op v :: stack))
  | .operate op left => some (.operate op left v stack)
  | .sign op => some (.go (.of .value (op.apply v)) stack)
  | .declare name => some (change (env.declare name v) stack)
  | .assign name => some (change (env.assign name v) stack)
  | .giveBack => some (.go (.flow (.returned v)) stack)
  | .discard => some (.go (.flow .next) stack)
  | .branch body rest =>
    let choice := fun holds : Bool =>
      if holds then Focus.stmts body.stmts else .branches rest
    some (.go (.of choice v.asBool) stack)
  | .test condition body =>
    match v.asBool with
    | .ok true => some (.spend (.stmts body.stmts) (.round condition body :: stack))
    | .ok false => some (.go (.flow .next) stack)
    | .error e => some (.go (.fault e) stack)
  | .round _ _ | .rest _ | .call => none

def ofFlow (f : Flow) (stack : List Frame) : Frame → Option Move
  | .rest stmts =>
    match f with
    | .next => some (.go (.stmts stmts) stack)
    | .returned v => some (.go (.flow (.returned v)) stack)
  | .round condition body =>
    match f with
    | .next => some (.go (.loop condition body) stack)
    | .returned v => some (.go (.flow (.returned v)) stack)
  | .call => some (.leave (.value f.result) stack)
  | _ => none

/-- A fault drops all pending work, but a call gives its bindings back. -/
def ofFault (e : Fault) (stack : List Frame) : Frame → Move
  | .call => .leave (.fault e) stack
  | _ => .go (.fault e) stack

end Move

/-- The configuration in which an action with this result leaves off. -/
def settle {α : Type} (inject : α → Focus) (out : Except Fault α × Machine) (stack : List Frame) :
    Config :=
  ⟨.of inject out.1, stack, out.2⟩

namespace Move

def make (limits : Limits) (m : Machine) : Move → Config
  | go focus stack => ⟨focus, stack, m⟩
  | set env focus stack => ⟨focus, stack, { m with env := env }⟩
  | spend focus stack => settle (fun _ => focus) (Exec.tick limits m) stack
  | operate op left right stack => ⟨.of .value (op.apply limits.maxStringLen left right), stack, m⟩
  | act request stack => settle .value (Exec.perform request m) stack
  | enter f values stack =>
    if m.env.depth < limits.maxCallDepth then
      ⟨.stmts f.body, .call :: stack, { m with env := m.env.pushFrame (f.params.zip values) }⟩
    else ⟨.fault (.callDepthExceeded limits.maxCallDepth), stack, m⟩
  | leave focus stack => ⟨focus, stack, { m with env := m.env.popFrame }⟩

end Move

namespace Config

/-- The move of a configuration.  There is none where the run has ended. -/
def move? (c : Config) : Option Move :=
  match c.focus, c.stack with
  | .expr e, stack => some (.ofExpr c.machine.env stack e)
  | .items use done [], stack => some (.ofUse stack done use)
  | .items use done (e :: rest), stack => some (.go (.expr e) (.items use done rest :: stack))
  | .stmts [], stack => some (.go (.flow .next) stack)
  | .stmts (s :: rest), stack => some (.spend (.begun s) (.rest rest :: stack))
  | .begun s, stack => some (.ofStmt c.machine.env stack s)
  | .branches rest, stack => some (.ofBranches stack rest)
  | .loop condition body, stack => some (.go (.expr condition) (.test condition body :: stack))
  | .value v, frame :: stack => Move.ofValue c.machine.env v stack frame
  | .flow f, frame :: stack => Move.ofFlow f stack frame
  | .fault e, frame :: stack => some (.ofFault e stack frame)
  | .value _, [] | .flow _, [] | .fault _, [] => none

def step (limits : Limits) (c : Config) : Option Config :=
  c.move?.map (Move.make limits c.machine)

/-- Some steps, or none, lead from one configuration to another. -/
def Leads (limits : Limits) : Config → Config → Prop :=
  Relation.ReflTransGen fun c c' => c.step limits = some c'

end Config

end KitchenScript
