import KitchenScript.Program.Tree
import KitchenScript.Run.Fault

/-!
# Operators on values

What the operators of the language do with values.  Nothing is converted: an operand of the wrong
tag is a fault, that of the left operand first.  `and` and `or` are plain functions of two truth
values, since both operands have been evaluated by then.
-/

namespace KitchenScript

/-- The number, or an overflow where there is none. -/
def inRange (n : Option Number) : Except Fault Value :=
  match n with
  | some n => .ok (.number n)
  | none => .error .overflow

/-- Two texts one after the other, as long as `limit` bytes suffice. -/
def concat (limit : Nat) (a b : String) : Except Fault Value :=
  let length := a.utf8ByteSize + b.utf8ByteSize
  if limit < length then .error (.valueTooLarge length limit) else .ok (.text (a ++ b))

/-- An operation on two numbers. -/
def arithmetic (op : Number → Number → Option Number) (a b : Value) : Except Fault Value := do
  let m ← a.asNumber
  let n ← b.asNumber
  inRange (op m n)

/-- Division and remainder. -/
def quotient (op : Number → Number → Option Number) (a b : Value) : Except Fault Value := do
  let m ← a.asNumber
  let n ← b.asNumber
  if n.val = 0 then .error .divisionByZero else inRange (op m n)

def comparison (test : Int → Int → Bool) (a b : Value) : Except Fault Value := do
  let m ← a.asNumber
  let n ← b.asNumber
  .ok (.bool (test m.val n.val))

def connective (op : Bool → Bool → Bool) (a b : Value) : Except Fault Value := do
  let p ← a.asBool
  let q ← b.asBool
  .ok (.bool (op p q))

namespace BinaryOp

/-- The value of an operator at two values; `limit` bounds the texts that `+` builds. -/
def apply (limit : Nat) (op : BinaryOp) (a b : Value) : Except Fault Value :=
  match op with
  | add =>
    match a with
    | .text s => do
      let t ← b.asText
      concat limit s t
    | a => arithmetic Number.add? a b
  | sub => arithmetic Number.sub? a b
  | mul => arithmetic Number.mul? a b
  | div => quotient Number.div? a b
  | rem => quotient Number.rem? a b
  | equal => .ok (.bool (a == b))
  | notEqual => .ok (.bool (a != b))
  | less => comparison (fun m n => m < n) a b
  | lessEqual => comparison (fun m n => m ≤ n) a b
  | greater => comparison (fun m n => n < m) a b
  | greaterEqual => comparison (fun m n => n ≤ m) a b
  | and => connective Bool.and a b
  | or => connective Bool.or a b

end BinaryOp

namespace UnaryOp

def apply (op : UnaryOp) (a : Value) : Except Fault Value :=
  match op with
  | not => do
    let p ← a.asBool
    .ok (.bool !p)
  | neg => do
    let n ← a.asNumber
    inRange n.neg?
  | len => do
    let (_, items) ← a.asList
    inRange (Number.ofInt? items.length)

end UnaryOp

/-- The item of a list at a position counted from zero.  The position is looked at first. -/
def itemAt (target position : Value) : Except Fault Value := do
  let index ← position.asNumber
  let (_, items) ← target.asList
  match index.toCount?.bind fun i => items[i]? with
  | some item => .ok item
  | none => .error (.indexOutOfRange index items.length)

end KitchenScript
