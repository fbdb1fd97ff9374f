import KitchenScript.Number

/-!
# Values

What a program computes with.  Every value has a tag; a list also has the tag of its elements, which
counts when lists are compared.  Values of different tags are never equal.
-/

namespace KitchenScript

inductive Tag where
  | bool
  | text
  | number
  | list
  | none
deriving DecidableEq

namespace Tag

def all : List Tag :=
  [bool, text, number, list, none]

def name : Tag → String
  | bool => "bool"
  | text => "string"
  | number => "number"
  | list => "list"
  | none => "none"

end Tag

inductive Value where
  | bool (value : Bool)
  | text (content : String)
  | number (value : Number)
  | list (element : Tag) (items : List Value)
  | none

namespace Value

def tag : Value → Tag
  | bool _ => .bool
  | text _ => .text
  | number _ => .number
  | list _ _ => .list
  | none => .none

/-- A list of texts.  Its elements are tagged as texts even when it is empty. -/
def texts (contents : List String) : Value :=
  .list .text (contents.map .text)

mutual

def same : Value → Value → Bool
  | bool a, bool b => a == b
  | text a, text b => a == b
  | number a, number b => a == b
  | list s xs, list t ys => s == t && sameItems xs ys
  | none, none => true
  | _, _ => false

def sameItems : List Value → List Value → Bool
  | [], [] => true
  | x :: xs, y :: ys => same x y && sameItems xs ys
  | _, _ => false

end

mutual

theorem same_iff (a b : Value) : same a b = true ↔ a = b := by
  cases a <;> cases b <;> simp [same]
  case list.list s xs t ys =>
    intro _
    exact sameItems_iff xs ys

theorem sameItems_iff (xs ys : List Value) : sameItems xs ys = true ↔ xs = ys := by
  cases xs with
  | nil => cases ys <;> simp [sameItems]
  | cons x xs =>
    cases ys with
    | nil => simp [sameItems]
    | cons y ys => simp [sameItems, same_iff x y, sameItems_iff xs ys]

end

instance : DecidableEq Value := fun a b =>
  decidable_of_iff (same a b = true) (same_iff a b)

mutual

/-- The value as it is shown to the player. -/
def render : Value → String
  | bool true => "true"
  | bool false => "false"
  | text s => s
  | number n => n.render
  | list _ items => "[" ++ renderItems items ++ "]"
  | none => "none"

def renderItems : List Value → String
  | [] => ""
  | [item] => render item
  | item :: next :: rest => render item ++ ", " ++ renderItems (next :: rest)

end

end Value

end KitchenScript
