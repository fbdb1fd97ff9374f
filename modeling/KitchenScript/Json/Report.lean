import KitchenScript.Json.Log
import KitchenScript.Run.Report

/-!
# Faults and reports in JSON

An error is an object with its kind and, unless it has none, its detail: the value of an error with
one value, or an object of its fields.
-/

namespace KitchenScript

namespace Json

/-- The kind of an error and its detail. -/
def ofKind (kind : String) (detail : Option Json) : Json :=
  .object (("kind", .text kind) :: (detail.map fun d => ("detail", d)).toList)

end Json

namespace Tag

/-- The name of a tag in data. -/
def dataName : Tag → String
  | bool => "Bool"
  | text => "Str"
  | number => "Num"
  | list => "List"
  | none => "None"

def toJson (t : Tag) : Json :=
  .text t.dataName

def ofJson? : Json → Option Tag :=
  Json.asName? false (all.map fun t => (t.dataName, t))

end Tag

namespace KitchenError

def kindName : KitchenError → String
  | duplicateStation _ => "duplicate-station"
  | reservedStationName _ => "reserved-station-name"
  | duplicateModule _ => "duplicate-module"
  | unknownModuleKind _ => "unknown-module-kind"
  | tooManyModules _ _ => "too-many-modules"
  | unknownLocation _ => "unknown-location"
  | unknownModule _ => "unknown-module"
  | wrongLocation _ _ _ => "wrong-location"
  | outOfStock _ => "out-of-stock"
  | emptyHands => "empty-hands"
  | notHolding _ _ => "not-holding"
  | slotOutOfRange _ _ _ => "slot-out-of-range"
  | emptyBay _ => "empty-bay"
  | slotEmpty _ _ => "slot-empty"
  | wrongItem _ _ _ => "wrong-item"
  | missing _ _ _ => "missing"
  | alreadyDone _ _ _ => "already-done"

def detail? : KitchenError → Option Json
  | duplicateStation name | reservedStationName name | duplicateModule name
  | unknownModuleKind name | unknownLocation name | unknownModule name | outOfStock name
  | emptyBay name => some (.text name)
  | tooManyModules station count =>
    some (.object [("station", .text station), ("count", .nat count)])
  | wrongLocation action required actual =>
    some (.object
      [("action", .text action), ("required", .text required), ("actual", .text actual)])
  | emptyHands => none
  | notHolding item held => some (.object [("item", .text item), ("held", .text held)])
  | slotOutOfRange module slot size =>
    some (.object [("module", .text module), ("slot", .int slot.val), ("size", .nat size)])
  | slotEmpty module slot => some (.object [("module", .text module), ("slot", .nat slot)])
  | wrongItem module slot expected =>
    some (.object
      [("module", .text module), ("slot", .nat slot), ("expected", .text expected)])
  | missing module slot wanted =>
    some (.object [("module", .text module), ("slot", .nat slot), ("wanted", .text wanted)])
  | alreadyDone module slot unwanted =>
    some (.object
      [("module", .text module), ("slot", .nat slot), ("unwanted", .text unwanted)])

def toJson (e : KitchenError) : Json :=
  .ofKind e.kindName e.detail?

end KitchenError

namespace Fault

def kindName : Fault → String
  | typeError _ _ => "type-error"
  | undefinedVariable _ => "undefined-variable"
  | undefinedFunction _ => "undefined-function"
  | alreadyDefined _ => "already-defined"
  | arity _ _ _ => "arity"
  | world _ => "world"
  | indexOutOfRange _ _ => "index-out-of-range"
  | divisionByZero => "division-by-zero"
  | overflow => "overflow"
  | stepLimitExceeded _ => "step-limit-exceeded"
  | callDepthExceeded _ => "call-depth-exceeded"
  | valueTooLarge _ _ => "value-too-large"

def detail? : Fault → Option Json
  | typeError expected found =>
    some (.object [("expected", expected.toJson), ("found", found.toJson)])
  | undefinedVariable name | undefinedFunction name | alreadyDefined name => some (.text name)
  | arity name expected found =>
    some (.object [("name", .text name), ("expected", .nat expected), ("found", .nat found)])
  | world error => some error.toJson
  | indexOutOfRange index length =>
    some (.object [("index", .int index.val), ("len", .nat length)])
  | divisionByZero | overflow => none
  | stepLimitExceeded limit | callDepthExceeded limit => some (.nat limit)
  | valueTooLarge length limit => some (.object [("len", .nat length), ("max", .nat limit)])

def toJson (f : Fault) : Json :=
  .ofKind f.kindName f.detail?

end Fault

namespace Outcome

def toJson : Outcome → Json
  | success => .object [("status", .text "success")]
  | failure => .object [("status", .text "failure")]
  | aborted fault => .object [("status", .text "aborted"), ("error", fault.toJson)]

end Outcome

namespace Report

def toJson (r : Report) : Json :=
  .object [("log", .array (r.log.map Entry.toJson)), ("outcome", r.outcome.toJson)]

end Report

namespace Limits

def toJson (l : Limits) : Json :=
  .object
    [("maxSteps", .nat l.maxSteps), ("maxCallDepth", .nat l.maxCallDepth),
      ("maxStringLen", .nat l.maxStringLen)]

def ofJson? (j : Json) : Option Limits := do
  match ← j.record? ["maxSteps", "maxCallDepth", "maxStringLen"] with
  | [steps, depth, length] =>
    let steps ← Json.required? (Json.asNat? UInt64.size) steps
    let depth ← Json.required? (Json.asNat? UInt64.size) depth
    let length ← Json.required? (Json.asNat? UInt64.size) length
    some ⟨steps, depth, length⟩
  | _ => none

end Limits

end KitchenScript
