/-!
# JSON values

The values of JSON as this library reads and writes them.  The fields of an object keep their order
and may repeat.  A number that was not written as a whole number keeps its spelling, because nothing
here reads a fraction.

Some literals are well formed and still denote no value: a text with half a surrogate pair, and a
number too large for a double.  They are kept as `unreadable`, since a reader that skips a field
does not look at its value.
-/

namespace KitchenScript

inductive Json where
  | null
  | bool (value : Bool)
  | int (value : Int)
  | fraction (literal : String)
  | text (content : String)
  | array (items : List Json)
  | object (fields : List (String × Json))
  | unreadable

namespace Json

def nat (n : Nat) : Json :=
  .int n

/-- An array of texts. -/
def texts (contents : List String) : Json :=
  .array (contents.map .text)

/-- The value, or null where there is none. -/
def orNull (value : Option Json) : Json :=
  value.getD .null

mutual

/-- Is every part of the value readable, with containers nested at most `room` deep? -/
def fits (room : Nat) : Json → Bool
  | .unreadable => false
  | .array items => 0 < room && fitItems (room - 1) items
  | .object fields => 0 < room && fitFields (room - 1) fields
  | _ => true

def fitItems (room : Nat) : List Json → Bool
  | [] => true
  | item :: rest => fits room item && fitItems room rest

def fitFields (room : Nat) : List (String × Json) → Bool
  | [] => true
  | (_, value) :: rest => fits room value && fitFields room rest

end

mutual

/-- The value with the fields of every object in the order of their names. -/
def sorted : Json → Json
  | .array items => .array (sortedItems items)
  | .object fields => .object ((sortedFields fields).mergeSort fun a b => !decide (b.1 < a.1))
  | .null => .null
  | .bool b => .bool b
  | .int n => .int n
  | .fraction s => .fraction s
  | .text s => .text s
  | .unreadable => .unreadable

def sortedItems : List Json → List Json
  | [] => []
  | item :: rest => sorted item :: sortedItems rest

def sortedFields : List (String × Json) → List (String × Json)
  | [] => []
  | (name, value) :: rest => (name, sorted value) :: sortedFields rest

end

end Json

end KitchenScript
