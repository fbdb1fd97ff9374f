import KitchenScript.Source.Span

/-!
# Source texts

A named text and its lines.  A line ends at a line feed or at the end of the text, and carriage
returns at its end do not count as part of it.
-/

namespace KitchenScript

/-- The stretches between the line feeds of a text; there is always at least one. -/
def splitLines : List Char → List (List Char)
  | [] => [[]]
  | c :: cs =>
    if c = '\n' then
      [] :: splitLines cs
    else
      match splitLines cs with
      | [] => [[c]]
      | line :: rest => (c :: line) :: rest

/-- A line without the carriage returns at its end. -/
def trimReturns (line : List Char) : List Char :=
  (line.reverse.dropWhile (· == '\r')).reverse

structure Source where
  name : String
  text : String
deriving DecidableEq

namespace Source

def lines (s : Source) : List String :=
  (splitLines s.text.toList).map fun line => String.ofList (trimReturns line)

def lineCount (s : Source) : Nat :=
  s.lines.length

/-- The line with this number, counted from one. -/
def line? (s : Source) : Nat → Option String
  | 0 => none
  | n + 1 => s.lines[n]?

end Source

end KitchenScript
