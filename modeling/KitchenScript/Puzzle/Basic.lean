import KitchenScript.Kitchen.Basic

/-!
# Puzzles

A puzzle lays out a kitchen, gives a list of test cases, each of them the dishes to deliver in
order, and sets limits by which solutions are graded.  Layouts are plans: text that becomes stations
when a kitchen is built from it.
-/

namespace KitchenScript

/-- A module of a layout, its kind given by name. -/
structure ModulePlan where
  kind : String
  name : String
  locked : Bool
deriving DecidableEq

structure StationPlan where
  name : String
  modules : List ModulePlan
deriving DecidableEq

/-- Grading limits.  A negative limit is none. -/
structure Constraints where
  maxStatements : Number
  maxActions : Number
  /-- The name of a rule; other names set none. -/
  additional : String
deriving DecidableEq

namespace Constraints

def standard : Constraints :=
  ⟨.minusOne, .minusOne, ""⟩

end Constraints

structure Puzzle where
  name : String
  difficulty : UInt32
  testCases : List (List String)
  starterPantry : List String
  starterCode : String
  /-- How many stations there should be; zero leaves it open. -/
  stationCount : UInt64
  stations : List StationPlan
  modulesLocked : Bool
  constraints : Constraints
  storyPrompt : String
deriving DecidableEq

inductive PuzzleError where
  | layout (error : KitchenError)
  | noSuchCase (index count : Nat)
  | stationCount (expected found : Nat)
deriving DecidableEq

namespace PuzzleError

def message : PuzzleError → String
  | layout error => s!"invalid kitchen layout: {error.message}"
  | noSuchCase index count => s!"puzzle has {count} test case(s); there is no case {index}"
  | stationCount expected found =>
    s!"puzzle declares {expected} station(s) but lays out {found}"

end PuzzleError

namespace ModulePlan

/-- The module for a bay of a station.  An empty bay is named by its place, so that empty bays have
different names in all stations. -/
def build (plan : ModulePlan) (station : String) (index : Nat) : Except KitchenError Module := do
  let kind ← ModuleKind.ofSignature plan.kind
  let name := if kind = .none then bayName station index else plan.name
  .ok (Module.fresh kind name plan.locked)

def ofModule (m : Module) : ModulePlan :=
  ⟨m.kind.signature, m.name, m.locked⟩

end ModulePlan

namespace StationPlan

/-- The modules of a plan from a bay on. -/
def buildModules (station : String) : List ModulePlan → Nat → Except KitchenError (List Module)
  | [], _ => .ok []
  | plan :: rest, index => do
    let m ← plan.build station index
    let ms ← buildModules station rest (index + 1)
    .ok (m :: ms)

def build (plan : StationPlan) : Except KitchenError Station := do
  let modules ← buildModules plan.name plan.modules 0
  Station.build plan.name modules

/-- The plan of a station, for saving a layout. -/
def ofStation (s : Station) : StationPlan :=
  ⟨s.name, s.modules.map ModulePlan.ofModule⟩

/-- The stations of several plans; the first plan that fails decides. -/
def buildAll : List StationPlan → Except KitchenError (List Station)
  | [] => .ok []
  | plan :: rest => do
    let s ← plan.build
    let ss ← buildAll rest
    .ok (s :: ss)

end StationPlan

/-- A broken kitchen rule as a fault of a layout. -/
def inLayout (result : Except KitchenError α) : Except PuzzleError α :=
  match result with
  | .ok a => .ok a
  | .error e => .error (.layout e)

namespace Puzzle

def buildStations (p : Puzzle) : Except PuzzleError (List Station) :=
  let expected := p.stationCount.toNat
  if expected ≠ 0 ∧ expected ≠ p.stations.length then
    .error (.stationCount expected p.stations.length)
  else
    inLayout (StationPlan.buildAll p.stations)

/-- A fresh kitchen for a test case. -/
def kitchenFor (p : Puzzle) (index : Nat) : Except PuzzleError Kitchen :=
  match p.testCases[index]? with
  | none => .error (.noSuchCase index p.testCases.length)
  | some orders => do
    let stations ← p.buildStations
    inLayout (Kitchen.build stations (.ofItems (p.starterPantry.map Food.mk)) (orders.map Food.mk))

end Puzzle

end KitchenScript
