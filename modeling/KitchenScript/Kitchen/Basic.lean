import KitchenScript.Kitchen.Module

/-!
# The kitchen

Stations with three bays each, the chef with a place and hands, the pantry, and the orders.  Every
operation of the chef gives a new kitchen or an error.

Stations have different names, none of them `Pantry` or `Window`, and modules have different names
in the whole kitchen; `Kitchen.build` sees to that.
-/

namespace KitchenScript

/-- The number of bays of a station. -/
def baysPerStation : Nat := 3

/-- The name of the empty bay at a place of a station. -/
def bayName (station : String) : Nat → String
  | 0 => station ++ " A"
  | 1 => station ++ " B"
  | 2 => station ++ " C"
  | index => s!"{station} {index + 1}"

structure Station where
  name : String
  modules : List Module
deriving DecidableEq

namespace Station

/-- A station whose remaining bays are empty. -/
def build (name : String) (modules : List Module) : Except KitchenError Station :=
  if baysPerStation < modules.length then
    .error (.tooManyModules name modules.length)
  else
    let padding := (List.range' modules.length (baysPerStation - modules.length)).map fun index =>
      Module.fresh .none (bayName name index) false
    .ok ⟨name, modules ++ padding⟩

def realModules (s : Station) : List Module :=
  s.modules.filter Module.isReal

/-- The station with the module of this name exchanged. -/
def exchange (name : String) (m : Module) (s : Station) : Station :=
  { s with modules := s.modules.map fun old => if old.name = name then m else old }

end Station

structure Kitchen where
  location : Location
  hands : Option Food
  pantry : Pantry
  stations : List Station
  required : List Food
  delivered : List Food
deriving DecidableEq

namespace Kitchen

/-- Names that no station may have. -/
def reservedNames : List String :=
  ["Pantry", "Window"]

/-- The modules of one station, checked against the module names seen before; the names seen
after. -/
def checkModules : List Module → List String → Except KitchenError (List String)
  | [], seen => .ok seen
  | m :: rest, seen =>
    if m.name ∈ seen then .error (.duplicateModule m.name)
    else checkModules rest (m.name :: seen)

/-- Stations in order, each with its name first and its modules after. -/
def checkStations : List Station → List String → List String → Except KitchenError Unit
  | [], _, _ => .ok ()
  | s :: rest, stations, modules =>
    if s.name ∈ reservedNames then .error (.reservedStationName s.name)
    else if s.name ∈ stations then .error (.duplicateStation s.name)
    else do
      let modules ← checkModules s.modules modules
      checkStations rest (s.name :: stations) modules

/-- A checked kitchen with the chef at the pantry, holding nothing. -/
def build (stations : List Station) (pantry : Pantry) (orders : List Food) :
    Except KitchenError Kitchen := do
  checkStations stations [] []
  .ok
    { location := .pantry
      hands := none
      pantry := pantry
      stations := stations
      required := orders
      delivered := [] }

/-- All modules, station by station. -/
def modules (k : Kitchen) : List Module :=
  k.stations.flatMap Station.modules

def module (k : Kitchen) (name : String) : Except KitchenError Module :=
  match k.modules.find? fun m => m.name == name with
  | some m => .ok m
  | none => .error (.unknownModule name)

/-- The kitchen with the module of this name exchanged. -/
def exchange (k : Kitchen) (name : String) (m : Module) : Kitchen :=
  { k with stations := k.stations.map (Station.exchange name m) }

/-- The orders were delivered, all of them and in their order. -/
def ordersMet (k : Kitchen) : Bool :=
  k.delivered == k.required

/-- The place with this name. -/
def locate (k : Kitchen) (name : String) : Except KitchenError Location :=
  if name = "Pantry" then .ok .pantry
  else if name = "Window" then .ok .window
  else if k.stations.any fun s => s.name == name then .ok (.station name)
  else .error (.unknownLocation name)

def goto (k : Kitchen) (name : String) : Except KitchenError (Location × Kitchen) := do
  let place ← k.locate name
  .ok (place, { k with location := place })

/-- Some actions are possible in one place only. -/
def requireAt (k : Kitchen) (action : String) (required : Location) : Except KitchenError Unit :=
  if k.location = required then .ok ()
  else .error (.wrongLocation action required.name k.location.name)

/-- Take a unit from the pantry; what the chef holds is dropped. -/
def get (k : Kitchen) (name : String) : Except KitchenError (Food × Kitchen) := do
  k.requireAt "GET" .pantry
  let pantry ← k.pantry.take ⟨name⟩
  .ok (⟨name⟩, { k with pantry := pantry, hands := some ⟨name⟩ })

/-- Hand over what the chef holds. -/
def deliver (k : Kitchen) : Except KitchenError (Food × Kitchen) := do
  k.requireAt "DELIVER" .window
  match k.hands with
  | some item => .ok (item, { k with hands := none, delivered := k.delivered ++ [item] })
  | none => .error .emptyHands

/-- The chef holds an item of this name. -/
def holding (k : Kitchen) (item : String) : Except KitchenError Food :=
  match k.hands with
  | some held => if held.name = item then .ok held else .error (.notHolding item held.name)
  | none => .error .emptyHands

/-- Put the held item, which has to be the one named, into a slot of a module. -/
def place (k : Kitchen) (name item : String) (slot : Number) : Except KitchenError Kitchen := do
  let m ← k.module name
  let held ← k.holding item
  let m ← m.place held slot
  .ok { k.exchange name m with hands := none }

def activate (k : Kitchen) (name : String) : Except KitchenError (Food × Kitchen) := do
  let m ← k.module name
  let (made, m) ← m.activate
  .ok (made, k.exchange name m)

/-- Pick up the output of a module; without one the chef ends up with empty hands. -/
def take (k : Kitchen) (name : String) : Except KitchenError (Option Food × Kitchen) := do
  let m ← k.module name
  let (output, m) := m.take
  .ok (output, { k.exchange name m with hands := output })

end Kitchen

end KitchenScript
