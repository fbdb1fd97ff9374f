import KitchenScript.Number

/-!
# Broken kitchen rules

The ways in which a layout can be refused and in which the chef can fail, with their wording.
-/

namespace KitchenScript

inductive KitchenError where
  | duplicateStation (name : String)
  | reservedStationName (name : String)
  | duplicateModule (name : String)
  | unknownModuleKind (name : String)
  | tooManyModules (station : String) (count : Nat)
  | unknownLocation (name : String)
  | unknownModule (name : String)
  | wrongLocation (action required actual : String)
  | outOfStock (item : String)
  | emptyHands
  | notHolding (item held : String)
  | slotOutOfRange (module : String) (slot : Number) (size : Nat)
  | emptyBay (name : String)
  | slotEmpty (module : String) (slot : Nat)
  | wrongItem (module : String) (slot : Nat) (expected : String)
  | missing (module : String) (slot : Nat) (wanted : String)
  | alreadyDone (module : String) (slot : Nat) (unwanted : String)
deriving DecidableEq

namespace KitchenError

def message : KitchenError → String
  | duplicateStation name => s!"station name '{name}' is used more than once"
  | reservedStationName name => s!"'{name}' is reserved and cannot name a station"
  | duplicateModule name => s!"module name '{name}' is used more than once"
  | unknownModuleKind name => s!"'{name}' is not a module kind"
  | tooManyModules station count => s!"station '{station}' has {count} modules; at most 3 fit"
  | unknownLocation name => s!"there is no location called '{name}'"
  | unknownModule name => s!"there is no module called '{name}'"
  | wrongLocation action required actual =>
    s!"{action} needs the chef at the {required}, but the chef is at {actual}"
  | outOfStock item => s!"the pantry has no {item} left"
  | emptyHands => "the chef is not holding anything"
  | notHolding item held => s!"the chef is holding {held}, not {item}"
  | slotOutOfRange module slot size => s!"{module} has no slot {slot.render}; it has {size}"
  | emptyBay name => s!"{name} is an empty bay"
  | slotEmpty module slot => s!"slot number {slot} of {module} has no food"
  | wrongItem module slot expected => s!"slot number {slot} of {module} does not have {expected}"
  | missing module slot wanted => s!"slot number {slot} of {module} is not a {wanted}"
  | alreadyDone module slot unwanted => s!"slot number {slot} of {module} is already a {unwanted}"

end KitchenError

end KitchenScript
