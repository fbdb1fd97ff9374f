import KitchenScript.Json.Basic
import KitchenScript.Number

/-!
# Records in JSON

How structures are read from JSON values.  A record is an object with named fields or an array of
its fields in order.  Fields that are not known are skipped; a known field that is repeated is
refused; at the end of an array fields may be missing.
-/

namespace KitchenScript.Json

def asText? : Json → Option String
  | .text s => some s
  | _ => none

def asBool? : Json → Option Bool
  | .bool b => some b
  | _ => none

/-- A whole number that is not negative and below the bound. -/
def asNat? (bound : Nat) : Json → Option Nat
  | .int n => if 0 ≤ n ∧ n < bound then some n.toNat else none
  | _ => none

def asNumber? : Json → Option Number
  | .int n => Number.ofInt? n
  | _ => none

/-- Every item of an array, read by `read`. -/
def asList? (read : Json → Option α) : Json → Option (List α)
  | .array items => items.mapM read
  | _ => none

def asTexts? : Json → Option (List String) :=
  asList? asText?

/-- Does the value stand for nothing?  Where a value was held back until its type was known, an
empty object does so as well. -/
def isNothing (held : Bool) : Json → Bool
  | .null => true
  | .object [] => held
  | _ => false

/-- One of a list of names, written as a text, or as an object with that one field and nothing as
its value. -/
def asName? (held : Bool) (names : List (String × α)) : Json → Option α
  | .text s => names.lookup s
  | .object [(s, value)] => if value.isNothing held then names.lookup s else none
  | _ => none

/-- The field of an object with this name: absent, present, or refused when it is repeated. -/
def field? (fields : List (String × Json)) (name : String) : Option (Option Json) :=
  match fields.filter fun f => f.1 == name with
  | [] => some none
  | [(_, value)] => some (some value)
  | _ => none

/-- The named fields of a record, in the order of the names. -/
def record? (names : List String) : Json → Option (List (Option Json))
  | .object fields => names.mapM (field? fields)
  | .array items =>
    if items.length ≤ names.length then
      some (items.map some ++ List.replicate (names.length - items.length) none)
    else
      none
  | _ => none

/-- A field that has to be there. -/
def required? (read : Json → Option α) (field : Option Json) : Option α :=
  field.bind read

/-- A field that may be absent; null does not stand for absence. -/
def optional? (read : Json → Option α) (default : α) : Option Json → Option α
  | some value => read value
  | none => some default

end KitchenScript.Json
