import KitchenScript.Json.Report
import KitchenScript.Puzzle.Submission

/-!
# Graded results in JSON

Figures, violations, case results and submissions as they are written for other programs.
-/

namespace KitchenScript

namespace Stats

def toJson (s : Stats) : Json :=
  .object
    [("statements", .nat s.statements), ("top_level_statements", .nat s.topLevelStatements),
      ("functions", .nat s.functions), ("max_params", .nat s.maxParams),
      ("longest_function", .nat s.longestFunction)]

end Stats

namespace Violation

def toJson : Violation → Json
  | tooManyStatements limit found => overLimit "too-many-statements" limit found
  | tooManyActions limit found => overLimit "too-many-actions" limit found
  | tooManyModules limit found => overLimit "too-many-modules" limit found
  | crowdedStation station modules =>
    .object
      [("rule", .text "crowded-station"), ("station", .text station), ("modules", .nat modules)]
  | tooManyParams limit found => overLimit "too-many-params" limit found
  | wrongFunctionCount least most found =>
    .object
      [("rule", .text "wrong-function-count"), ("min", .nat least), ("max", .nat most),
        ("found", .nat found)]
  | functionTooLong limit found => overLimit "function-too-long" limit found
  | compoundCondition line =>
    .object [("rule", .text "compound-condition"), ("line", .nat line)]
where
  overLimit (rule : String) (limit found : Nat) : Json :=
    .object [("rule", .text rule), ("max", .nat limit), ("found", .nat found)]

end Violation

namespace CaseResult

def toJson (r : CaseResult) : Json :=
  .object
    [("index", .nat r.index), ("orders", .texts r.orders), ("report", r.report.toJson),
      ("violations", .array (r.violations.map Violation.toJson))]

end CaseResult

namespace Submission

def toJson (s : Submission) : Json :=
  .object
    [("stats", .orNull (s.stats.map Stats.toJson)), ("errors", s.diagnostics.toJson),
      ("cases", .array (s.cases.map CaseResult.toJson))]

end Submission

end KitchenScript
