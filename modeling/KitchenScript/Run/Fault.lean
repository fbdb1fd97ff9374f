import KitchenScript.Kitchen.Error
import KitchenScript.Value

/-!
# Faults

The errors that stop a run, with their wording and their classes, and the accessors that read a
value of an expected tag or fail.
-/

namespace KitchenScript

/-- Which sort of mistake a fault is. -/
inductive FaultClass where
  | type
  | name
  | arity
  | world
  | arithmetic
  | budget
deriving DecidableEq

namespace FaultClass

def word : FaultClass → String
  | type => "type"
  | name => "name"
  | arity => "arity"
  | world => "world"
  | arithmetic => "arithmetic"
  | budget => "budget"

end FaultClass

inductive Fault where
  | typeError (expected found : Tag)
  | undefinedVariable (name : String)
  | undefinedFunction (name : String)
  | alreadyDefined (name : String)
  | arity (name : String) (expected found : Nat)
  | world (error : KitchenError)
  | indexOutOfRange (index : Number) (length : Nat)
  | divisionByZero
  | overflow
  | stepLimitExceeded (limit : Nat)
  | callDepthExceeded (limit : Nat)
  | valueTooLarge (length limit : Nat)
deriving DecidableEq

namespace Fault

def message : Fault → String
  | typeError expected found => s!"type error: expected {expected.name}, got {found.name}"
  | undefinedVariable name => s!"name error: '{name}' is not defined"
  | undefinedFunction name => s!"name error: no function called '{name}'"
  | alreadyDefined name => s!"name error: '{name}' is already defined"
  | arity name expected found => s!"arity error: {name} takes {expected} argument(s), got {found}"
  | world error => s!"kitchen error: {error.message}"
  | indexOutOfRange index length =>
    s!"index {index.render} is out of range for a list of length {length}"
  | divisionByZero => "division by zero"
  | overflow => "arithmetic overflow"
  | stepLimitExceeded limit => s!"step limit of {limit} exceeded"
  | callDepthExceeded limit => s!"call depth limit of {limit} exceeded"
  | valueTooLarge length limit => s!"a string of {length} bytes is over the limit of {limit}"

def faultClass : Fault → FaultClass
  | typeError _ _ => .type
  | undefinedVariable _ | undefinedFunction _ | alreadyDefined _ => .name
  | arity _ _ _ => .arity
  | world _ => .world
  | indexOutOfRange _ _ | divisionByZero | overflow => .arithmetic
  | stepLimitExceeded _ | callDepthExceeded _ | valueTooLarge _ _ => .budget

end Fault

namespace Value

/-- The value itself if it has the expected tag. -/
def check (v : Value) (expected : Tag) : Except Fault Value :=
  if v.tag = expected then .ok v else .error (.typeError expected v.tag)

def asBool : Value → Except Fault Bool
  | bool b => .ok b
  | v => .error (.typeError .bool v.tag)

def asNumber : Value → Except Fault Number
  | number n => .ok n
  | v => .error (.typeError .number v.tag)

def asText : Value → Except Fault String
  | text s => .ok s
  | v => .error (.typeError .text v.tag)

/-- The element tag and the items of a list. -/
def asList : Value → Except Fault (Tag × List Value)
  | list t items => .ok (t, items)
  | v => .error (.typeError .list v.tag)

/-- The list of these items, which have to share the tag of the first one.  Without items the
element tag is `none`. -/
def ofItems (items : List Value) : Except Fault Value :=
  let element := (items.head?.map tag).getD .none
  match items.find? fun v => v.tag != element with
  | some odd => .error (.typeError element odd.tag)
  | Option.none => .ok (.list element items)

end Value

end KitchenScript
