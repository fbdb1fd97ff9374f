import KitchenScript.Program.Stats
import KitchenScript.Puzzle.Basic
import KitchenScript.Run.Log
import KitchenScript.Token.Basic

/-!
# Constraints of a puzzle

What a solution that delivers its orders is checked against: limits on its size and on the length of
its log, and at most one further rule about the layout or the style of the program.
-/

namespace KitchenScript

/-- The further rules a puzzle can set. -/
inductive Rule where
  /-- Few real modules in the whole kitchen. -/
  | fewModules
  /-- No station is filled. -/
  | airyStations
  /-- Functions take few parameters. -/
  | fewParams
  /-- A given number of functions, each of them short. -/
  | shortFunctions
  /-- Conditions are not combined by `and` or `or`. -/
  | plainConditions
deriving DecidableEq

namespace Rule

def ofName? : String → Option Rule
  | "LessModules" => some fewModules
  | "IndustrialKitchen" => some airyStations
  | "LessParams" => some fewParams
  | "maxFiveLinesPerMethodMaxSevenMethods" => some shortFunctions
  | "maxOneIfComparison" => some plainConditions
  | _ => none

def maxModules : Nat := 3
def maxModulesPerStation : Nat := 2
def maxParams : Nat := 3
def minFunctions : Nat := 6
def maxFunctions : Nat := 7
def maxFunctionLength : Nat := 5

end Rule

inductive Violation where
  | tooManyStatements (limit found : Nat)
  | tooManyActions (limit found : Nat)
  | tooManyModules (limit found : Nat)
  | crowdedStation (station : String) (modules : Nat)
  | tooManyParams (limit found : Nat)
  | wrongFunctionCount (least most found : Nat)
  | functionTooLong (limit found : Nat)
  | compoundCondition (line : Nat)
deriving DecidableEq

namespace Violation

def message : Violation → String
  | tooManyStatements limit found => s!"uses {found} statements; the limit is {limit}"
  | tooManyActions limit found => s!"takes {found} actions; the limit is {limit}"
  | tooManyModules limit found => s!"uses {found} modules; the limit is {limit}"
  | crowdedStation station modules => s!"station {station} holds {modules} modules"
  | tooManyParams limit found => s!"a function takes {found} parameters; the limit is {limit}"
  | wrongFunctionCount least most found =>
    s!"declares {found} functions; {least} to {most} are required"
  | functionTooLong limit found => s!"a function has {found} statements; the limit is {limit}"
  | compoundCondition line => s!"line {line} combines conditions with and/or"

end Violation

/-- The violation where a figure is over its limit. -/
def overLimit (limit found : Nat) (violation : Nat → Nat → Violation) : List Violation :=
  if limit < found then [violation limit found] else []

/-- The violation where a figure is over a limit that may be absent. -/
def overOptionalLimit (limit : Number) (found : Nat) (violation : Nat → Nat → Violation) :
    List Violation :=
  match limit.toCount? with
  | some limit => overLimit limit found violation
  | none => []

/-- Does the token join conditions? -/
def Token.isConnective (t : Token) : Bool :=
  t.kind == .keyword .andWord || t.kind == .keyword .orWord

namespace Rule

def check (stations : List Station) (stats : Stats) (tokens : List Token) :
    Rule → List Violation
  | fewModules =>
    overLimit maxModules (stations.flatMap Station.realModules).length .tooManyModules
  | airyStations =>
    stations.flatMap fun s =>
      overLimit maxModulesPerStation s.realModules.length fun _ found =>
        .crowdedStation s.name found
  | fewParams => overLimit maxParams stats.maxParams .tooManyParams
  | shortFunctions =>
    (if minFunctions ≤ stats.functions ∧ stats.functions ≤ maxFunctions then []
      else [.wrongFunctionCount minFunctions maxFunctions stats.functions])
      ++ overLimit maxFunctionLength stats.longestFunction .functionTooLong
  | plainConditions =>
    match tokens.find? Token.isConnective with
    | some t => [.compoundCondition t.span.first.line]
    | none => []

end Rule

namespace Constraints

def rule? (c : Constraints) : Option Rule :=
  Rule.ofName? c.additional

/-- All violations of a solution, given the layout, the figures and tokens of the program, and the
log of the run. -/
def check (c : Constraints) (stations : List Station) (stats : Stats) (tokens : List Token)
    (log : List Entry) : List Violation :=
  overOptionalLimit c.maxStatements stats.statements .tooManyStatements
    ++ overOptionalLimit c.maxActions (actionCount log) .tooManyActions
    ++ match c.rule? with
      | some rule => rule.check stations stats tokens
      | none => []

end Constraints

end KitchenScript
