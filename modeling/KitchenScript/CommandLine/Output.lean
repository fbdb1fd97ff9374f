import KitchenScript.CommandLine.Arguments
import KitchenScript.Json.Puzzle
import KitchenScript.Json.Submission
import KitchenScript.Text.Quoted

/-!
# Carrying out commands

What the commands print and how they exit, as a function of the contents of the files they read.
-/

namespace KitchenScript

structure Output where
  exitCode : Nat
  stdout : String
  stderr : String
deriving DecidableEq

namespace Output

/-- Texts as lines. -/
def lines (texts : List String) : String :=
  String.join (texts.map (· ++ "\n"))

/-- Exit with zero when all went well, else with one. -/
def exitFor (ok : Bool) : Nat :=
  if ok then 0 else 1

/-- Printed lines, and an exit code that says whether all went well. -/
def printing (ok : Bool) (out : List String) (err : List String) : Output :=
  ⟨exitFor ok, lines out, lines err⟩

/-- The command could not be carried out. -/
def failing (reason : String) : Output :=
  printing false [] [s!"Error: {reason}"]

end Output

/-- A file that is there, or the failure to read it. -/
def reading (files : String → Option String) (path : String) : Except Output String :=
  match files path with
  | some text => .ok text
  | none => .error (.failing s!"reading {path}")

namespace Compiled

/-- Every diagnostic with its line and its suggestion. -/
def complaints (c : Compiled) : List String :=
  c.diagnostics.errors.flatMap fun d =>
    [s!"{d.file}: {d.render}", s!"    {d.sourceLine}"]
      ++ (d.suggestion.map fun hint => s!"    hint: {hint}").toList

def summary (s : Stats) : String :=
  s!"ok: {s.statements} statements ({s.topLevelStatements} top-level), {s.functions} functions"

def output (c : Compiled) (json : Bool) : Output :=
  if json then
    let shown : Json :=
      .object [("stats", .orNull (c.stats.map Stats.toJson)), ("errors", c.diagnostics.toJson)]
    .printing c.succeeded [shown.sorted.pretty] []
  else
    .printing c.succeeded (c.stats.map summary).toList c.complaints

end Compiled

namespace CaseStatus

def phrase : CaseStatus → String
  | passed => "passed"
  | warning => "passed with warnings"
  | failed => "failed"
  | error => "error"

end CaseStatus

namespace CaseResult

/-- The log of a single case. -/
def output (r : CaseResult) (json : Bool) : Output :=
  if json then
    .printing r.report.succeeded [r.toJson.pretty] []
  else
    .printing r.report.succeeded
      ((r.report.log.map fun e => s!"  {e.message}")
        ++ (r.report.fault?.map fun fault => s!"  error: {fault.message}").toList)
      []

/-- How a case went, with its fault and its violations. -/
def summary (r : CaseResult) : List String :=
  [s!"case {r.index} {Text.quotedList r.orders}: {r.status.phrase}"]
    ++ (r.report.fault?.map fun fault => s!"    {fault.message}").toList
    ++ r.violations.map fun v => s!"    {v.message}"

end CaseResult

namespace Submission

def output (s : Submission) (puzzle : Puzzle) (json : Bool) : Output :=
  if json then
    .printing s.solved [s.toJson.pretty] []
  else
    let verdict := if s.solved then "solved" else "not solved"
    .printing s.solved
      (s.cases.flatMap CaseResult.summary ++ [s!"{puzzle.name}: {verdict}"])
      (s.diagnostics.errors.map fun d => s!"{d.file}: {d.render}")

end Submission

namespace Puzzle

/-- A puzzle error as the failure of a command. -/
def orFail (result : Except PuzzleError α) : Except Output α :=
  match result with
  | .ok a => .ok a
  | .error e => .error (.failing e.message)

/-- Run a single case of the puzzle. -/
def outputCase (p : Puzzle) (source : Source) (limits : Limits) (index : Nat) (json : Bool) :
    Except Output Output :=
  let compiled := compile source
  match compiled.program with
  | none =>
    .error (.failing s!"{source.name} has {compiled.diagnostics.total} compile error(s)")
  | some program => do
    let result ← orFail (p.runCase program limits index)
    .ok (result.output json)

/-- Run every case of the puzzle. -/
def outputAll (p : Puzzle) (source : Source) (limits : Limits) (json : Bool) :
    Except Output Output := do
  let submission ← orFail (p.submit source limits)
  .ok (submission.output p json)

/-- The script to run: the one in the file, or else the starter code. -/
def sourceFor (p : Puzzle) (files : String → Option String) : Option String → Except Output Source
  | some path => do
    let text ← reading files path
    .ok ⟨path, text⟩
  | none => .ok ⟨"<starter code>", p.starterCode⟩

/-- The puzzle in a file. -/
def load (files : String → Option String) (path : String) : Except Output Puzzle :=
  match (files path).bind read? with
  | some p => .ok p
  | none => .error (.failing s!"loading {path}")

end Puzzle

namespace Command

/-- What a command prints, or why it could not be carried out. -/
def result (files : String → Option String) : Command → Except Output Output
  | check script json => do
    let text ← reading files script
    .ok ((compile ⟨script, text⟩).output json)
  | run puzzle script testCase json limits => do
    let p ← Puzzle.load files puzzle
    let source ← p.sourceFor files script
    match testCase with
    | some index => p.outputCase source limits index json
    | none => p.outputAll source limits json

/-- Carry out a command on the contents of the files that are there. -/
def output (files : String → Option String) (c : Command) : Output :=
  match c.result files with
  | .ok out => out
  | .error out => out

end Command

end KitchenScript
