import KitchenScript.Builtin
import KitchenScript.Number
import KitchenScript.Source.Span

/-!
# Program trees

Expressions, statements and programs.  Every node carries the span of the text it was read from;
spans play no part in what a program does.
-/

namespace KitchenScript

structure Ident where
  name : String
  span : Span
deriving DecidableEq

inductive BinaryOp where
  | add
  | sub
  | mul
  | div
  | rem
  | equal
  | notEqual
  | less
  | lessEqual
  | greater
  | greaterEqual
  | and
  | or
deriving DecidableEq

namespace BinaryOp

def all : List BinaryOp :=
  [add, sub, mul, div, rem, equal, notEqual, less, lessEqual, greater, greaterEqual, and, or]

def symbol : BinaryOp → String
  | add => "+"
  | sub => "-"
  | mul => "*"
  | div => "/"
  | rem => "%"
  | equal => "=="
  | notEqual => "!="
  | less => "<"
  | lessEqual => "<="
  | greater => ">"
  | greaterEqual => ">="
  | and => "and"
  | or => "or"

end BinaryOp

inductive UnaryOp where
  | not
  | neg
  | len
deriving DecidableEq

inductive Expr where
  | number (span : Span) (value : Number)
  | text (span : Span) (content : String)
  | bool (span : Span) (value : Bool)
  | none (span : Span)
  | list (span : Span) (items : List Expr)
  | name (span : Span) (name : String)
  | call (span : Span) (callee : Ident) (args : List Expr)
  | builtin (span : Span) (callee : Builtin) (args : List Expr)
  | index (span : Span) (target : Expr) (position : Expr)
  | binary (span : Span) (op : BinaryOp) (left : Expr) (right : Expr)
  | unary (span : Span) (op : UnaryOp) (operand : Expr)
  | paren (span : Span) (inner : Expr)

namespace Expr

def span : Expr → Span
  | number s _ | text s _ | bool s _ | none s | list s _ | name s _ | call s _ _ | builtin s _ _
  | index s _ _ | binary s _ _ _ | unary s _ _ | paren s _ => s

end Expr

mutual

inductive Stmt where
  /-- Declare a variable. -/
  | var (span : Span) (name : Ident) (value : Expr)
  /-- Give a declared variable a new value. -/
  | assign (span : Span) (name : Ident) (value : Expr)
  | func (span : Span) (name : Ident) (params : List Ident) (body : Block)
  | choose (span : Span) (branches : Branches)
  | loop (span : Span) (condition : Expr) (body : Block)
  | giveBack (span : Span) (value : Option Expr)
  | expr (span : Span) (value : Expr)

inductive Block where
  | mk (span : Span) (stmts : List Stmt)

/-- The chain of an `if`: conditions with their blocks, ended by nothing or by the `else` block. -/
inductive Branches where
  | done
  | otherwise (body : Block)
  | branch (condition : Expr) (body : Block) (rest : Branches)

end

namespace Block

def span : Block → Span
  | mk s _ => s

def stmts : Block → List Stmt
  | mk _ ss => ss

end Block

namespace Branches

/-- The number of conditions. -/
def count : Branches → Nat
  | done => 0
  | otherwise _ => 0
  | branch _ _ rest => rest.count + 1

def hasElse : Branches → Bool
  | done => false
  | otherwise _ => true
  | branch _ _ rest => rest.hasElse

/-- The span of the last block of the chain, if it has a block. -/
def lastSpan? : Branches → Option Span
  | done => none
  | otherwise body => some body.span
  | branch _ body rest => some (rest.lastSpan?.getD body.span)

end Branches

namespace Stmt

def span : Stmt → Span
  | var s _ _ | assign s _ _ | func s _ _ _ | choose s _ | loop s _ _ | giveBack s _ | expr s _ => s

end Stmt

structure Program where
  span : Span
  stmts : List Stmt

/-- A declared function, as it is kept for calls. -/
structure Function where
  name : String
  params : List String
  body : List Stmt

end KitchenScript
