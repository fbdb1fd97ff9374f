import KitchenScript.Builtin
import KitchenScript.Kitchen.Basic
import KitchenScript.Run.Fault
import KitchenScript.Run.Log

/-!
# Kitchen operations

What a kitchen call asks of the kitchen, as a value: which operation with which arguments.  Carrying
an operation out gives the entry for the log, the value of the call and the kitchen after it.
-/

namespace KitchenScript

inductive Operation where
  | goto (place : String)
  | get (item : String)
  | place (module item : String) (slot : Number)
  | activate (module : String)
  | take (module : String)
  | deliver
deriving DecidableEq

/-- What an operation that succeeded leaves. -/
structure Effect where
  entry : Entry
  answer : Value
  kitchen : Kitchen

namespace Operation

def carryOut (k : Kitchen) : Operation → Except KitchenError Effect
  | goto name => do
    let (target, k) ← k.goto name
    .ok ⟨⟨.move target, s!"Moved to {target.name}"⟩, .none, k⟩
  | get name => do
    let (item, k) ← k.get name
    .ok ⟨⟨.pickUp item, s!"Picked up {item.name} from the Pantry"⟩, .text item.name, k⟩
  | place module item slot => do
    let k ← k.place module item slot
    .ok ⟨⟨.putDown ⟨item⟩, s!"Placed {item} in slot {slot.render} of {module}"⟩, .none, k⟩
  | activate module => do
    let (made, k) ← k.activate module
    .ok ⟨⟨.use module, s!"Activated {module}, making {made.name}"⟩, .text made.name, k⟩
  | take module => do
    let (output, k) ← k.take module
    match output with
    | some item =>
      .ok ⟨⟨.pickUp item, s!"Took {item.name} from {module}"⟩, .text item.name, k⟩
    | none => .ok ⟨⟨.noOp, s!"{module} had nothing to take"⟩, .none, k⟩
  | deliver => do
    let (item, k) ← k.deliver
    .ok ⟨⟨.putDown item, s!"Delivered {item.name}"⟩, .none, k⟩

end Operation

/-- What a built-in call asks for: an operation, or to show a value. -/
inductive Request where
  | operation (op : Operation)
  | print (value : Value)

namespace Builtin

/-- The request of a call with these arguments, whose tags are checked from left to right. -/
def request (b : Builtin) (args : List Value) : Except Fault Request :=
  match b, args with
  | .goto, [v] => do
    let target ← v.asText
    .ok (.operation (.goto target))
  | .get, [v] => do
    let item ← v.asText
    .ok (.operation (.get item))
  | .place, [u, v, w] => do
    let module ← u.asText
    let item ← v.asText
    let slot ← w.asNumber
    .ok (.operation (.place module item slot))
  | .activate, [v] => do
    let module ← v.asText
    .ok (.operation (.activate module))
  | .take, [v] => do
    let module ← v.asText
    .ok (.operation (.take module))
  | .deliver, [] => .ok (.operation .deliver)
  | .print, [v] => .ok (.print v)
  | b, args => .error (.arity b.name b.arity args.length)

end Builtin

end KitchenScript
