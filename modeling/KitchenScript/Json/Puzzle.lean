import KitchenScript.Json.Printer
import KitchenScript.Json.Reader
import KitchenScript.Json.Record
import KitchenScript.Puzzle.Basic

/-!
# Puzzle files

Puzzles as they are stored.  Only the name and the test cases have to be there; everything else has
a default.  What is written can be read back.
-/

namespace KitchenScript

namespace ModuleKind

def toJson (kind : ModuleKind) : Json :=
  .text kind.signature

def ofJson? : Json → Option ModuleKind :=
  Json.asName? false (all.map fun kind => (kind.signature, kind))

end ModuleKind

namespace ModulePlan

def toJson (plan : ModulePlan) : Json :=
  .object
    [("module", .text plan.kind), ("name", .text plan.name), ("locked", .bool plan.locked)]

def ofJson? (j : Json) : Option ModulePlan := do
  match ← j.record? ["module", "name", "locked"] with
  | [kind, name, locked] =>
    let kind ← Json.required? Json.asText? kind
    let name ← Json.required? Json.asText? name
    let locked ← Json.optional? Json.asBool? false locked
    some ⟨kind, name, locked⟩
  | _ => none

end ModulePlan

namespace StationPlan

def toJson (plan : StationPlan) : Json :=
  .object
    [("name", .text plan.name), ("modules", .array (plan.modules.map ModulePlan.toJson))]

def ofJson? (j : Json) : Option StationPlan := do
  match ← j.record? ["name", "modules"] with
  | [name, modules] =>
    let name ← Json.required? Json.asText? name
    let modules ← Json.optional? (Json.asList? ModulePlan.ofJson?) [] modules
    some ⟨name, modules⟩
  | _ => none

end StationPlan

namespace Constraints

def toJson (c : Constraints) : Json :=
  .object
    [("maxStatements", .int c.maxStatements.val), ("maxActions", .int c.maxActions.val),
      ("additionalConstraint", .text c.additional)]

def ofJson? (j : Json) : Option Constraints := do
  match ← j.record? ["maxStatements", "maxActions", "additionalConstraint"] with
  | [statements, actions, additional] =>
    let statements ← Json.optional? Json.asNumber? standard.maxStatements statements
    let actions ← Json.optional? Json.asNumber? standard.maxActions actions
    let additional ← Json.optional? Json.asText? standard.additional additional
    some ⟨statements, actions, additional⟩
  | _ => none

end Constraints

namespace Puzzle

def fieldNames : List String :=
  ["name", "difficulty", "testCases", "starterPantry", "starterCode", "numOfStations", "stations",
    "modulesLocked", "constraints", "storyPrompt"]

def toJson (p : Puzzle) : Json :=
  .object
    [("name", .text p.name),
      ("difficulty", .nat p.difficulty.toNat),
      ("testCases", .array (p.testCases.map Json.texts)),
      ("starterPantry", .texts p.starterPantry),
      ("starterCode", .text p.starterCode),
      ("numOfStations", .nat p.stationCount.toNat),
      ("stations", .array (p.stations.map StationPlan.toJson)),
      ("modulesLocked", .bool p.modulesLocked),
      ("constraints", p.constraints.toJson),
      ("storyPrompt", .text p.storyPrompt)]

def ofJson? (j : Json) : Option Puzzle := do
  match ← j.record? fieldNames with
  | [name, difficulty, testCases, starterPantry, starterCode, stationCount, stations,
      modulesLocked, constraints, storyPrompt] =>
    let name ← Json.required? Json.asText? name
    let difficulty ← Json.optional? (Json.asNat? UInt32.size) 0 difficulty
    let testCases ← Json.required? (Json.asList? Json.asTexts?) testCases
    let starterPantry ← Json.optional? Json.asTexts? [] starterPantry
    let starterCode ← Json.optional? Json.asText? "" starterCode
    let stationCount ← Json.optional? (Json.asNat? UInt64.size) 0 stationCount
    let stations ← Json.optional? (Json.asList? StationPlan.ofJson?) [] stations
    let modulesLocked ← Json.optional? Json.asBool? false modulesLocked
    let constraints ← Json.optional? Constraints.ofJson? .standard constraints
    let storyPrompt ← Json.optional? Json.asText? "" storyPrompt
    some
      { name := name
        difficulty := .ofNat difficulty
        testCases := testCases
        starterPantry := starterPantry
        starterCode := starterCode
        stationCount := .ofNat stationCount
        stations := stations
        modulesLocked := modulesLocked
        constraints := constraints
        storyPrompt := storyPrompt }
  | _ => none

/-- The text of a puzzle file. -/
def write (p : Puzzle) : String :=
  p.toJson.pretty

/-- The puzzle of a puzzle file. -/
def read? (text : String) : Option Puzzle :=
  (Json.read? text).bind ofJson?

end Puzzle

end KitchenScript
