import KitchenScript.Program.Tree
import KitchenScript.Run.Fault

/-!
# Variables, calls and functions

Variables live in one flat set of bindings; blocks open no scope.  A call saves the bindings of its
caller, works on a copy that also binds the parameters, and gives the saved bindings back.
Functions live in one table, in which an entry is never changed.
-/

namespace KitchenScript

/-- Bindings of names.  The first binding of a name is the one that counts. -/
abbrev Bindings := List (String × Value)

namespace Bindings

/-- The bindings with a name bound to a value, in its old place if it had one. -/
def bind (name : String) (value : Value) : Bindings → Bindings
  | [] => [(name, value)]
  | (other, old) :: rest =>
    if other = name then (name, value) :: rest else (other, old) :: bind name value rest

/-- Bind several names; of equal names the last wins. -/
def bindAll (vars : Bindings) (new : List (String × Value)) : Bindings :=
  new.foldl (fun vars b => bind b.1 b.2 vars) vars

end Bindings

structure Environment where
  vars : Bindings
  /-- The saved bindings of the callers, the innermost first. -/
  frames : List Bindings
  functions : List (String × Function)

namespace Environment

def ofBindings (bindings : List (String × Value)) : Environment :=
  ⟨Bindings.bindAll [] bindings, [], []⟩

def isBound (e : Environment) (name : String) : Bool :=
  (e.vars.lookup name).isSome

def get (e : Environment) (name : String) : Except Fault Value :=
  match e.vars.lookup name with
  | some value => .ok value
  | none => .error (.undefinedVariable name)

/-- Bind a name that is not bound yet. -/
def declare (e : Environment) (name : String) (value : Value) : Except Fault Environment :=
  if e.isBound name then .error (.alreadyDefined name)
  else .ok { e with vars := Bindings.bind name value e.vars }

/-- Give a bound name another value. -/
def assign (e : Environment) (name : String) (value : Value) : Except Fault Environment :=
  if e.isBound name then .ok { e with vars := Bindings.bind name value e.vars }
  else .error (.undefinedVariable name)

def function (e : Environment) (name : String) : Except Fault Function :=
  match e.functions.lookup name with
  | some f => .ok f
  | none => .error (.undefinedFunction name)

/-- Enter a function whose name no variable and no other function has. -/
def define (e : Environment) (f : Function) : Except Fault Environment :=
  if e.isBound f.name || (e.functions.lookup f.name).isSome then .error (.alreadyDefined f.name)
  else .ok { e with functions := e.functions ++ [(f.name, f)] }

/-- Save the bindings and bind the parameters of a call. -/
def pushFrame (e : Environment) (params : List (String × Value)) : Environment :=
  { e with vars := Bindings.bindAll e.vars params, frames := e.vars :: e.frames }

/-- Restore the bindings saved last, if there are any. -/
def popFrame (e : Environment) : Environment :=
  match e.frames with
  | [] => e
  | saved :: rest => { e with vars := saved, frames := rest }

/-- The number of calls under way. -/
def depth (e : Environment) : Nat :=
  e.frames.length

end Environment

end KitchenScript
