import KitchenScript.Run.Evaluation

/-!
# Runs

A run of a program in a kitchen.  The variable `orders` holds the required orders; a program that
comes to its end succeeds when exactly these were delivered, and a fault aborts it.
-/

namespace KitchenScript

inductive Outcome where
  | success
  | failure
  | aborted (fault : Fault)
deriving DecidableEq

structure Report where
  log : List Entry
  outcome : Outcome
deriving DecidableEq

namespace Report

def succeeded (r : Report) : Bool :=
  r.outcome == .success

def fault? (r : Report) : Option Fault :=
  match r.outcome with
  | .aborted fault => some fault
  | _ => none

end Report

/-- A finished run: its report, the kitchen as it was left and the steps spent. -/
structure Run where
  report : Report
  kitchen : Kitchen
  steps : Nat

/-- The variable that holds the required orders. -/
def ordersVariable : String := "orders"

/-- Names in brackets, separated by commas. -/
def listNames (items : List Food) : String :=
  "[" ++ ", ".intercalate (items.map Food.name) ++ "]"

namespace Kitchen

/-- The outcome of a completed run that leaves this kitchen, with its entry. -/
def verdict (k : Kitchen) : Outcome × Entry :=
  if k.ordersMet then
    (.success, ⟨.success, "All orders were delivered"⟩)
  else
    let delivered := listNames k.delivered
    let required := listNames k.required
    (.failure, ⟨.failure, s!"Delivered {delivered} but the orders were {required}"⟩)

end Kitchen

namespace Machine

/-- The machine at the start of a run. -/
def forKitchen (k : Kitchen) : Machine :=
  .start k (.ofBindings [(ordersVariable, .texts (k.required.map Food.name))])

end Machine

namespace Program

/-- Run a program in a kitchen within limits. -/
def run (limits : Limits) (k : Kitchen) (p : Program) : Run :=
  match execute limits p.stmts (.forKitchen k) with
  | (.ok _, m) =>
    let (outcome, entry) := m.kitchen.verdict
    ⟨⟨m.log.toList ++ [entry], outcome⟩, m.kitchen, m.steps⟩
  | (.error fault, m) => ⟨⟨m.log.toList, .aborted fault⟩, m.kitchen, m.steps⟩

end Program

end KitchenScript
