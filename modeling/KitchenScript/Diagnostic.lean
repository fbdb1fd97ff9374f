import KitchenScript.Source.Text

/-!
# Diagnostics

What is reported about a script that cannot be read: a numbered complaint, where it applies and the
line it applies to.  A list of diagnostics keeps the first twenty and counts all of them.
-/

namespace KitchenScript

inductive Category where
  | syntactic
  | structural
deriving DecidableEq

namespace Category

def name : Category → String
  | syntactic => "syntax"
  | structural => "structure"

end Category

/-- The number of a complaint. -/
structure Code where
  number : Nat
deriving DecidableEq

namespace Code

def unexpectedToken : Code := ⟨100⟩
def unclosedBlock : Code := ⟨101⟩
def expectedLineEnd : Code := ⟨102⟩
def invalidLiteral : Code := ⟨103⟩
def danglingElse : Code := ⟨200⟩
def nestingLimit : Code := ⟨201⟩
def duplicateParameter : Code := ⟨202⟩

/-- Numbers from 200 to 299 are about structure, all others about syntax. -/
def category (c : Code) : Category :=
  if 200 ≤ c.number ∧ c.number ≤ 299 then .structural else .syntactic

def render (c : Code) : String :=
  s!"E{c.number}"

end Code

structure Diagnostic where
  file : String
  code : Code
  category : Category
  message : String
  span : Span
  sourceLine : String
  suggestion : Option String
deriving DecidableEq

namespace Diagnostic

/-- The diagnostic with a code, which decides its category. -/
def ofCode (file : String) (code : Code) (message : String) (span : Span) (sourceLine : String)
    (suggestion : Option String) : Diagnostic :=
  ⟨file, code, code.category, message, span, sourceLine, suggestion⟩

def render (d : Diagnostic) : String :=
  s!"{d.span.render}: {d.code.render} [{d.category.name}] {d.message}"

end Diagnostic

structure Diagnostics where
  errors : List Diagnostic
  total : Nat
deriving DecidableEq

namespace Diagnostics

/-- How many diagnostics are kept. -/
def capacity : Nat := 20

def empty : Diagnostics :=
  ⟨[], 0⟩

def push (ds : Diagnostics) (d : Diagnostic) : Diagnostics :=
  ⟨if ds.errors.length < capacity then ds.errors ++ [d] else ds.errors, ds.total + 1⟩

def hasErrors (ds : Diagnostics) : Bool :=
  0 < ds.total

def isFull (ds : Diagnostics) : Bool :=
  capacity ≤ ds.total

def ofList (ds : List Diagnostic) : Diagnostics :=
  ds.foldl push empty

end Diagnostics

end KitchenScript
