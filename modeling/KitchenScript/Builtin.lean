/-!
# Kitchen calls

The calls by which a program acts in the kitchen, with their names and argument counts.
-/

namespace KitchenScript

inductive Builtin where
  | goto
  | get
  | place
  | activate
  | take
  | deliver
  | print
deriving DecidableEq

namespace Builtin

def all : List Builtin :=
  [goto, get, place, activate, take, deliver, print]

def name : Builtin → String
  | goto => "GOTO"
  | get => "GET"
  | place => "PLACE"
  | activate => "ACTIVATE"
  | take => "TAKE"
  | deliver => "DELIVER"
  | print => "PRINT"

def arity : Builtin → Nat
  | deliver => 0
  | place => 3
  | _ => 1

def ofName? (name : String) : Option Builtin :=
  all.find? fun b => b.name == name

end Builtin

end KitchenScript
