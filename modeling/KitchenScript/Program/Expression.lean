import KitchenScript.Program.Cursor

/-!
# Reading expressions

From weakest to strongest binding: `or`, `and`, equality, comparison, sums, products, the unary
operators, and indexing.  Equality and comparison do not chain; the other binary operators group to
the left.

Expressions nest at most `maxExprDepth` deep.  The recursion is on the number of levels that may
still be opened: an operand of a unary operator and an expression inside brackets each open one.
Runs on one level are bounded by the tokens to come, of which every round takes one.
-/

namespace KitchenScript.Parser

def orOp? : TokenKind → Option BinaryOp
  | .keyword .orWord => some .or
  | _ => none

def andOp? : TokenKind → Option BinaryOp
  | .keyword .andWord => some .and
  | _ => none

def equalityOp? : TokenKind → Option BinaryOp
  | .symbol .equal => some .equal
  | .symbol .notEqual => some .notEqual
  | _ => none

def comparisonOp? : TokenKind → Option BinaryOp
  | .symbol .less => some .less
  | .symbol .lessEqual => some .lessEqual
  | .symbol .greater => some .greater
  | .symbol .greaterEqual => some .greaterEqual
  | _ => none

def sumOp? : TokenKind → Option BinaryOp
  | .symbol .plus => some .add
  | .symbol .minus => some .sub
  | _ => none

def productOp? : TokenKind → Option BinaryOp
  | .symbol .star => some .mul
  | .symbol .slash => some .div
  | .symbol .percent => some .rem
  | _ => none

def unaryOp? : TokenKind → Option UnaryOp
  | .keyword .notWord => some .not
  | .symbol .minus => some .neg
  | .symbol .hash => some .len
  | _ => none

def binaryExpr (left : Expr) (op : BinaryOp) (right : Expr) : Expr :=
  .binary (left.span.merge right.span) op left right

/-- A minus in front of a number is part of the number. -/
def unaryExpr (start : Span) (op : UnaryOp) (operand : Expr) : Expr :=
  match op, operand with
  | .neg, .number s n => .number (start.merge s) n.opposite
  | _, _ => .unary (start.merge operand.span) op operand

/-- The rounds of a chain after its first operand. -/
def chainRest (op? : TokenKind → Option BinaryOp) (operand : Parser Expr) :
    List Token → Expr → Parser Expr
  | [], left => pure left
  | _ :: bound, left => do
    match op? (← kind) with
    | none => pure left
    | some op =>
      let _ ← advance
      let right ← operand
      chainRest op? operand bound (binaryExpr left op right)

/-- Operands joined by operators of one class, grouped to the left. -/
def chain (op? : TokenKind → Option BinaryOp) (operand : Parser Expr) : Parser Expr := do
  let left ← operand
  fun c => chainRest op? operand c.rest left c

/-- One operand, or two joined by an operator of a class that does not chain. -/
def single (op? : TokenKind → Option BinaryOp) (chained : Problem) (operand : Parser Expr) :
    Parser Expr := do
  let left ← operand
  match op? (← kind) with
  | none => pure left
  | some op =>
    let _ ← advance
    let right ← operand
    if (op? (← kind)).isSome then
      fail chained
    else
      pure (binaryExpr left op right)

/-- All binary operators over the given operands. -/
def binary (operand : Parser Expr) : Parser Expr :=
  chain orOp? <| chain andOp? <| single equalityOp? .chainedEquality <|
    single comparisonOp? .chainedComparison <| chain sumOp? <| chain productOp? operand

/-- Expressions separated by commas; line ends around them are skipped. -/
def items (expression : Parser Expr) : List Token → Parser (List Expr)
  | [] => fail .missingExpression
  | _ :: bound => do
    skipLineEnds
    let item ← expression
    skipLineEnds
    if ← eat (.symbol .comma) then
      let rest ← items expression bound
      pure (item :: rest)
    else
      pure [item]

/-- A possibly empty comma list up to and including its closing mark. -/
def commaList (expression : Parser Expr) (close : Symbol) : Parser (List Expr) := do
  skipLineEnds
  if ← eat (.symbol close) then
    pure []
  else
    let found ← fun c => items expression c.rest c
    expect (.symbol close)
    pure found

def callArgs (expression : Parser Expr) : Parser (List Expr) := do
  expect (.symbol .leftParen)
  commaList expression .rightParen

/-- A call of a kitchen function has exactly as many arguments as the function takes. -/
def builtinCall (expression : Parser Expr) (callee : Builtin) (start : Span) : Parser Expr := do
  let _ ← advance
  let args ← callArgs expression
  let stop ← lastSpan
  let whole := start.merge stop
  if args.length = callee.arity then
    pure (.builtin whole callee args)
  else
    failAt (.wrongArgumentCount callee args.length) whole

/-- A variable, or a call when an opening parenthesis follows. -/
def nameOrCall (expression : Parser Expr) (name : String) (start : Span) : Parser Expr := do
  let _ ← advance
  if (← kind) = .symbol .leftParen then
    let args ← callArgs expression
    let stop ← lastSpan
    pure (.call (start.merge stop) ⟨name, start⟩ args)
  else
    pure (.name start name)

def literal (value : Expr) : Parser Expr := do
  let _ ← advance
  pure value

def listLiteral (expression : Parser Expr) (start : Span) : Parser Expr := do
  let _ ← advance
  let found ← commaList expression .rightBracket
  let stop ← lastSpan
  pure (.list (start.merge stop) found)

def parenthesized (expression : Parser Expr) (start : Span) : Parser Expr := do
  let _ ← advance
  skipLineEnds
  let inner ← expression
  skipLineEnds
  expect (.symbol .rightParen)
  let stop ← lastSpan
  pure (.paren (start.merge stop) inner)

def primary (expression : Parser Expr) : Parser Expr := do
  let start ← span
  match ← kind with
  | .number n => literal (.number start n)
  | .text s => literal (.text start s)
  | .keyword .trueWord => literal (.bool start true)
  | .keyword .falseWord => literal (.bool start false)
  | .keyword .noneWord => literal (.none start)
  | .identifier name =>
    if name = "\"" then fail .unterminatedText else nameOrCall expression name start
  | .builtin callee => builtinCall expression callee start
  | .symbol .leftBracket => listLiteral expression start
  | .symbol .leftParen => parenthesized expression start
  | .lineEnd => fail .missingExpression
  | .fileEnd => fail .missingExpression
  | found => fail (.notExpression found)

/-- The indices after an expression. -/
def indexRest (expression : Parser Expr) : List Token → Expr → Parser Expr
  | [], target => pure target
  | _ :: bound, target => do
    if ← eat (.symbol .leftBracket) then
      skipLineEnds
      let position ← expression
      skipLineEnds
      expect (.symbol .rightBracket)
      let stop ← lastSpan
      indexRest expression bound (.index (target.span.merge stop) target position)
    else
      pure target

def indexed (expression : Parser Expr) : Parser Expr := do
  let target ← primary expression
  fun c => indexRest expression c.rest target c

/-- Unary operators in front of an indexed expression, given how to read what lies one level
deeper: an expression in brackets, and the operand of a unary operator. -/
def unaryOver (expression operand : Parser Expr) : Parser Expr := do
  match unaryOp? (← kind) with
  | none => indexed expression
  | some op =>
    let sign ← advance
    let inner ← operand
    pure (unaryExpr sign.span op inner)

/-- Operands of binary operators, with `levels` levels left to open. -/
def unary (levels : Nat) : Parser Expr :=
  match levels with
  | 0 => unaryOver (fail .exprTooDeep) (fail .exprTooDeep)
  | levels + 1 => unaryOver (binary (unary levels)) (unary levels)

/-- An expression of the program. -/
def expression : Parser Expr :=
  binary (unary (maxExprDepth - 1))

end KitchenScript.Parser
