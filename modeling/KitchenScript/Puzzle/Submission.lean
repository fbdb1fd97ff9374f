import KitchenScript.Compile
import KitchenScript.Puzzle.Violation
import KitchenScript.Run.Report

/-!
# Submissions

Running a program on the test cases of a puzzle, each in a kitchen of its own, and grading the cases
that met their orders.
-/

namespace KitchenScript

inductive CaseStatus where
  | passed
  /-- The orders were met and a constraint was broken. -/
  | warning
  | failed
  | error
deriving DecidableEq

structure CaseResult where
  index : Nat
  orders : List String
  report : Report
  violations : List Violation
deriving DecidableEq

namespace CaseResult

def status (r : CaseResult) : CaseStatus :=
  match r.report.outcome with
  | .success => if r.violations.isEmpty then .passed else .warning
  | .failure => .failed
  | .aborted _ => .error

end CaseResult

namespace Puzzle

/-- Run one test case, without grading. -/
def runCase (p : Puzzle) (program : Program) (limits : Limits) (index : Nat) :
    Except PuzzleError CaseResult := do
  let kitchen ← p.kitchenFor index
  let run := program.run limits kitchen
  .ok ⟨index, (p.testCases[index]?).getD [], run.report, []⟩

/-- Run the cases with these numbers, in order. -/
def runCases (p : Puzzle) (program : Program) (limits : Limits) :
    List Nat → Except PuzzleError (List CaseResult)
  | [] => .ok []
  | index :: rest => do
    let result ← p.runCase program limits index
    let results ← p.runCases program limits rest
    .ok (result :: results)

/-- Run all test cases. -/
def runAll (p : Puzzle) (program : Program) (limits : Limits) :
    Except PuzzleError (List CaseResult) :=
  p.runCases program limits (List.range p.testCases.length)

end Puzzle

structure Submission where
  stats : Option Stats
  diagnostics : Diagnostics
  cases : List CaseResult
deriving DecidableEq

namespace Submission

/-- The script compiled, there was a case, and every case passed. -/
def solved (s : Submission) : Bool :=
  !s.diagnostics.hasErrors && !s.cases.isEmpty && s.cases.all fun c => c.status == .passed

end Submission

namespace CaseResult

/-- The result with its violations, if the orders were met. -/
def grade (check : List Entry → List Violation) (r : CaseResult) : CaseResult :=
  if r.report.succeeded then { r with violations := check r.report.log } else r

end CaseResult

namespace Puzzle

/-- Compile a script and run it on every test case.  A script that does not compile is not run. -/
def submit (p : Puzzle) (source : Source) (limits : Limits) : Except PuzzleError Submission :=
  let compiled := compile source
  match compiled.program with
  | none => .ok ⟨none, compiled.diagnostics, []⟩
  | some program => do
    let stations ← p.buildStations
    let results ← p.runAll program limits
    let stats := Stats.ofProgram program
    let check := p.constraints.check stations stats compiled.tokens
    .ok ⟨some stats, compiled.diagnostics, results.map (CaseResult.grade check)⟩

end Puzzle

end KitchenScript
