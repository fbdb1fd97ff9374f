import KitchenScript.Kitchen.Food
import KitchenScript.Text.Search

/-!
# Modules and their recipes

A module has the slots of its kind and one recipe.  Activating it checks the recipe against the
slots; if the check succeeds the slots are emptied and the product waits as the output.
-/

namespace KitchenScript

inductive ModuleKind where
  | slicer
  | grinder
  | soupMaker
  | fryer
  | barbecueSaucer
  | griddle
  | burgerBuilder
  /-- An empty bay. -/
  | none
deriving DecidableEq

namespace ModuleKind

def all : List ModuleKind :=
  [slicer, grinder, soupMaker, fryer, barbecueSaucer, griddle, burgerBuilder, none]

def slotCount : ModuleKind → Nat
  | slicer | grinder => 1
  | soupMaker | fryer | griddle => 2
  | barbecueSaucer => 3
  | burgerBuilder => 4
  | none => 0

/-- The name of a kind in puzzle files. -/
def signature : ModuleKind → String
  | slicer => "Slicer"
  | grinder => "Grinder"
  | soupMaker => "SoupMaker"
  | fryer => "Fryer"
  | barbecueSaucer => "BarbecueSaucer"
  | griddle => "Griddle"
  | burgerBuilder => "BurgerBuilder"
  | none => "None"

def ofSignature (name : String) : Except KitchenError ModuleKind :=
  match all.find? fun kind => kind.signature == name with
  | some kind => .ok kind
  | Option.none => .error (.unknownModuleKind name)

end ModuleKind

structure Module where
  kind : ModuleKind
  name : String
  locked : Bool
  slots : List (Option Food)
  output : Option Food
deriving DecidableEq

namespace Module

/-- A module as it is installed: nothing in its slots, no output. -/
def fresh (kind : ModuleKind) (name : String) (locked : Bool) : Module where
  kind := kind
  name := name
  locked := locked
  slots := List.replicate kind.slotCount none
  output := none

/-- An empty bay does not count as a real module. -/
def isReal (m : Module) : Bool :=
  m.kind != .none

/-- Put an item into a slot, in place of what is there. -/
def place (m : Module) (item : Food) (slot : Number) : Except KitchenError Module :=
  if m.kind = .none then
    .error (.emptyBay m.name)
  else
    match slot.toCount? with
    | some i =>
      if i < m.slots.length then .ok { m with slots := m.slots.set i (some item) }
      else .error (.slotOutOfRange m.name slot m.slots.length)
    | none => .error (.slotOutOfRange m.name slot m.slots.length)

/-- The food in a slot. -/
def filled (m : Module) (slot : Nat) : Except KitchenError Food :=
  match m.slots[slot]? with
  | some (some food) => .ok food
  | _ => .error (.slotEmpty m.name slot)

/-- The slot holds exactly this food. -/
def exactly (m : Module) (slot : Nat) (expected : String) : Except KitchenError Food := do
  let food ← m.filled slot
  if food.name = expected then .ok food else .error (.wrongItem m.name slot expected)

/-- The name of the food in the slot has this phrase in it. -/
def having (m : Module) (slot : Nat) (wanted : String) : Except KitchenError Food := do
  let food ← m.filled slot
  if Text.contains food.name wanted then .ok food else .error (.missing m.name slot wanted)

/-- The name of the food in the slot does not have this phrase in it. -/
def lacking (m : Module) (slot : Nat) (unwanted : String) : Except KitchenError Food := do
  let food ← m.filled slot
  if Text.contains food.name unwanted then .error (.alreadyDone m.name slot unwanted) else .ok food

/-- What the module makes of its slots. -/
def product (m : Module) : Except KitchenError Food :=
  match m.kind with
  | .slicer => do
    let food ← m.lacking 0 "Sliced"
    let _ ← m.having 0 "Loaf of"
    .ok ⟨Text.replace food.name "Loaf of " "Sliced "⟩
  | .grinder => do
    let food ← m.lacking 0 "Ground"
    let _ ← m.having 0 "Raw"
    .ok ⟨Text.replace food.name "Raw " "Ground "⟩
  | .soupMaker => do
    let _ ← m.exactly 0 "Broth"
    let food ← m.lacking 1 "Soup"
    .ok ⟨food.name ++ " Soup"⟩
  | .fryer => do
    let _ ← m.exactly 0 "Ground Chicken"
    let _ ← m.exactly 1 "Sliced Bread"
    .ok ⟨"Chicken Tenders"⟩
  | .barbecueSaucer => do
    let _ ← m.exactly 0 "Tomato"
    let _ ← m.exactly 1 "Sugar"
    let _ ← m.exactly 2 "Vinegar"
    .ok ⟨"Barbecue Sauce"⟩
  | .griddle => do
    let _ ← m.exactly 0 "Egg"
    let _ ← m.exactly 1 "Pepper"
    .ok ⟨"Fried Egg"⟩
  | .burgerBuilder => do
    let _ ← m.exactly 0 "Sliced Bread"
    let filling ← m.filled 1
    let _ ← m.exactly 2 "Ground Beef"
    let _ ← m.exactly 3 "Sliced Bread"
    .ok ⟨filling.name ++ " Burger"⟩
  | .none => .error (.emptyBay m.name)

/-- Run the recipe; a product still waiting is lost. -/
def activate (m : Module) : Except KitchenError (Food × Module) := do
  let made ← m.product
  .ok (made, { m with slots := m.slots.map fun _ => none, output := some made })

/-- Remove the output. -/
def take (m : Module) : Option Food × Module :=
  (m.output, { m with output := none })

end Module

end KitchenScript
