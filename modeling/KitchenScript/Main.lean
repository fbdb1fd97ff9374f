import KitchenScript.CommandLine.Output

/-!
# The program

Reads the files that a command names, carries the command out and prints what it gives.
-/

namespace KitchenScript

def usage : String :=
  "usage: check SCRIPT [--json]\n"
    ++ "       run PUZZLE [SCRIPT] [--case N] [--json] [--max-steps N] [--max-call-depth N]\n"
    ++ "           [--max-string-len N]\n"

/-- The content of a file, if it can be read as text. -/
def readIfPresent (path : String) : IO (Option String) := do
  try
    let text ← IO.FS.readFile path
    return some text
  catch _ =>
    return none

/-- The contents of the files that can be read, by path. -/
def readAll (paths : List String) : IO (List (String × String)) :=
  paths.filterMapM fun path => do
    let text ← readIfPresent path
    return text.map (path, ·)

end KitchenScript

open KitchenScript in
def main (args : List String) : IO UInt32 := do
  match Command.ofArguments? args with
  | none =>
    IO.eprint usage
    return 2
  | some command =>
    let files ← readAll command.paths
    let out := command.output fun path => files.lookup path
    IO.print out.stdout
    IO.eprint out.stderr
    return out.exitCode.toUInt32
