import KitchenScript.Kitchen.Error

/-!
# Food, places and the pantry

The pantry holds a number of units of each food.  Its stock is listed in the order of the names and
has no entry for a food that is used up.
-/

namespace KitchenScript

structure Food where
  name : String
deriving DecidableEq

inductive Location where
  | pantry
  | window
  | station (name : String)
deriving DecidableEq

namespace Location

def name : Location → String
  | pantry => "Pantry"
  | window => "Window"
  | station name => name

end Location

/-- The units of each food, in the order of names.  Units are natural numbers; counters of 32 bits
agree with them while every food has fewer than `2 ^ 32` units. -/
structure Pantry where
  stock : List (Food × Nat)
deriving DecidableEq

namespace Pantry

def empty : Pantry :=
  ⟨[]⟩

/-- The stock with one unit more of a food. -/
def addTo (item : Food) : List (Food × Nat) → List (Food × Nat)
  | [] => [(item, 1)]
  | (food, n) :: rest =>
    if item = food then (food, n + 1) :: rest
    else if item.name < food.name then (item, 1) :: (food, n) :: rest
    else (food, n) :: addTo item rest

/-- The stock with one unit less of a food, if there is one. -/
def takeFrom (item : Food) : List (Food × Nat) → Option (List (Food × Nat))
  | [] => none
  | (food, n) :: rest =>
    if item = food then some (if 1 < n then (food, n - 1) :: rest else rest)
    else (takeFrom item rest).map ((food, n) :: ·)

def add (p : Pantry) (item : Food) : Pantry :=
  ⟨addTo item p.stock⟩

def ofItems (items : List Food) : Pantry :=
  items.foldl add empty

def count (p : Pantry) (item : Food) : Nat :=
  (p.stock.lookup item).getD 0

def isEmpty (p : Pantry) : Bool :=
  p.stock.isEmpty

def take (p : Pantry) (item : Food) : Except KitchenError Pantry :=
  match takeFrom item p.stock with
  | some stock => .ok ⟨stock⟩
  | none => .error (.outOfStock item.name)

end Pantry

end KitchenScript
