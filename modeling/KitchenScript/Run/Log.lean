import KitchenScript.Kitchen.Food

/-!
# The action log

What the chef is seen to do, one entry after the other.  A completed run ends with an entry for
success or failure; all other entries are written by kitchen calls.
-/

namespace KitchenScript

inductive Action where
  | move (place : Location)
  | pickUp (item : Food)
  | putDown (item : Food)
  | use (module : String)
  | success
  | failure
  | noOp
deriving DecidableEq

namespace Action

/-- Success and failure close a run. -/
def isTerminal : Action → Bool
  | success => true
  | failure => true
  | _ => false

end Action

structure Entry where
  action : Action
  message : String
deriving DecidableEq

/-- The entries of a log that are not its verdict. -/
def actionCount (log : List Entry) : Nat :=
  log.countP fun e => !e.action.isTerminal

end KitchenScript
