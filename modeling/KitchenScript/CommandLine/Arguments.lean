import KitchenScript.Run.Machine

/-!
# Command line arguments

Two commands: `check` reads a script, `run` runs a script on a puzzle.  Options may stand anywhere
after the command, each at most once; a value follows its option or is joined to it by an equals
sign, and after two dashes nothing is an option any more.
-/

namespace KitchenScript

inductive Command where
  | check (script : String) (json : Bool)
  | run (puzzle : String) (script : Option String) (testCase : Option Nat) (json : Bool)
    (limits : Limits)
deriving DecidableEq

/-- Arguments sorted into plain words, switches, and options with their values. -/
structure Arguments where
  words : List String
  switches : List String
  values : List (String × String)

namespace Arguments

/-- A dash with something after it starts an option. -/
def isOption (arg : String) : Bool :=
  match arg.toList with
  | '-' :: _ :: _ => true
  | _ => false

/-- An option and the value joined to it, if there is one. -/
def splitOption (arg : String) : String × Option String :=
  let cs := arg.toList
  let name := String.ofList (cs.takeWhile (· != '='))
  match cs.dropWhile (· != '=') with
  | [] => (name, none)
  | _ :: value => (name, some (String.ofList value))

def addWord (word : String) (a : Arguments) : Arguments :=
  { a with words := word :: a.words }

def addSwitch? (switch : String) (a : Arguments) : Option Arguments :=
  if switch ∈ a.switches then none else some { a with switches := switch :: a.switches }

def addValue? (option value : String) (a : Arguments) : Option Arguments :=
  if (a.values.lookup option).isSome then none
  else some { a with values := (option, value) :: a.values }

/-- Sort arguments, given the switches and the options that take a value. -/
def sort? (switches options : List String) : List String → Option Arguments
  | [] => some ⟨[], [], []⟩
  | arg :: rest =>
    if arg = "--" then some ⟨rest, [], []⟩
    else if !isOption arg then (sort? switches options rest).map (addWord arg)
    else
      match splitOption arg with
      | (name, none) =>
        if name ∈ switches then (sort? switches options rest).bind (addSwitch? name)
        else if name ∈ options then
          match rest with
          | value :: rest =>
            if isOption value then none
            else (sort? switches options rest).bind (addValue? name value)
          | [] => none
        else none
      | (name, some value) =>
        if name ∈ options then (sort? switches options rest).bind (addValue? name value)
        else none

/-- A count written in decimal, possibly with a plus sign. -/
def count? (text : String) : Option Nat :=
  let digits :=
    match text.toList with
    | '+' :: cs => cs
    | cs => cs
  if digits.isEmpty || !digits.all Char.isDigit then none
  else
    let n := Nat.ofDigitChars 10 digits 0
    if n < UInt64.size then some n else none

/-- The count given for an option, or else the default. -/
def countFor? (a : Arguments) (option : String) (default : Nat) : Option Nat :=
  match a.values.lookup option with
  | some value => count? value
  | none => some default

end Arguments

namespace Command

def checkOfArguments? (a : Arguments) : Option Command :=
  match a.words with
  | [script] => if script = "" then none else some (.check script ("--json" ∈ a.switches))
  | _ => none

def runOfArguments? (a : Arguments) : Option Command := do
  let (puzzle, script) ←
    match a.words with
    | [puzzle] => some (puzzle, none)
    | [puzzle, script] => some (puzzle, some script)
    | _ => none
  let testCase ←
    match a.values.lookup "--case" with
    | some value => (Arguments.count? value).map some
    | none => some none
  let steps ← a.countFor? "--max-steps" Limits.standard.maxSteps
  let depth ← a.countFor? "--max-call-depth" Limits.standard.maxCallDepth
  let length ← a.countFor? "--max-string-len" Limits.standard.maxStringLen
  if puzzle = "" ∨ script = some "" then none
  else some (.run puzzle script testCase ("--json" ∈ a.switches) ⟨steps, depth, length⟩)

/-- The command of a list of arguments; `none` is a mistake in using the program. -/
def ofArguments? : List String → Option Command
  | "check" :: rest => (Arguments.sort? ["--json"] [] rest).bind checkOfArguments?
  | "run" :: rest =>
    (Arguments.sort? ["--json"] ["--case", "--max-steps", "--max-call-depth", "--max-string-len"]
      rest).bind runOfArguments?
  | _ => none

/-- The files a command reads. -/
def paths : Command → List String
  | check script _ => [script]
  | run puzzle script _ _ _ => puzzle :: script.toList

end Command

end KitchenScript
