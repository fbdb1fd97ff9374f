import KitchenScript.Program.Statement

/-!
# Reading with a position and counters

The readers once more, over all tokens and a position among them.  The levels of expressions and
blocks that are open are counted up and down, and the loops go round until they are left: neither
the levels that may still be opened nor the tokens to come bound any reader.

So that these readers are functions, a loop may take only so many rounds, and readers may call each
other only so deep.  One that would need more has no outcome at all, which is not a failure: a
reader that fails has an outcome, and reading goes on after it.

What happens on the way is written down: each call of the reader of statements, each round of a
loop over statements, and each recovery from a failure.
-/

namespace KitchenScript

namespace Descent

/-- What is written down.  Positions count the tokens taken. -/
inductive Event where
  /-- A statement was read or failed to be: the levels of expressions and of blocks that were open
  before and after. -/
  | statement (before after : Nat × Nat)
  /-- One round of a loop over statements, from one position to another. -/
  | round (goesOn : Bool) (start stop : Nat)
  /-- Tokens passed over after a failure, with so many blocks open. -/
  | recovery (blocks start stop : Nat)
  deriving DecidableEq

/-- What readers leave as it is. -/
structure Setting where
  tokens : List Token
  /-- The rounds a loop may take, and the depth to which readers may call each other. -/
  rounds : Nat
  exprs : Nat
  blocks : Nat

structure State extends Setting where
  pos : Nat
  findings : List Finding
  record : List Event

namespace State

def ofTokens (tokens : List Token) (rounds : Nat) : State where
  tokens := tokens
  rounds := rounds
  exprs := 0
  blocks := 0
  pos := 0
  findings := []
  record := []

/-- The token to come.  Past the last token this one stays. -/
def peek (s : State) : Token :=
  s.tokens[s.pos]?.getD (s.tokens.getLastD ⟨.fileEnd, .point .start⟩)

def kind (s : State) : TokenKind :=
  s.peek.kind

def span (s : State) : Span :=
  s.peek.span

/-- The kind of a token further on. -/
def ahead (s : State) (k : Nat) : TokenKind :=
  (s.tokens[s.pos + k]?.map Token.kind).getD .fileEnd

def previousSpan (s : State) : Span :=
  match s.pos with
  | 0 => .point .start
  | i + 1 => (s.tokens[i]?.map Token.span).getD (.point .start)

def advance (s : State) : State :=
  if s.pos < s.tokens.length then { s with pos := s.pos + 1 } else s

def report (s : State) (problem : Problem) (span : Span) : State :=
  { s with findings := s.findings ++ [⟨problem, span⟩] }

def isFull (s : State) : Bool :=
  Diagnostics.capacity ≤ s.findings.length

def note (s : State) (event : Event) : State :=
  { s with record := s.record ++ [event] }

end State

end Descent

open Descent

/-- A reader with counters.  Its outcome, if it has one, is a result or a failure. -/
def Descent (α : Type) : Type :=
  State → Option (Option α × State)

namespace Descent

def pure (a : α) : Descent α :=
  fun s => some (some a, s)

def bind (x : Descent α) (f : α → Descent β) : Descent β :=
  fun s =>
    match x s with
    | some (some a, s) => f a s
    | some (none, s) => some (none, s)
    | none => none

instance : Monad Descent where
  pure := pure
  bind := bind

/-- There are no rounds left. -/
def never : Descent α :=
  fun _ => none

def inRounds (x : Nat → Descent α) : Descent α :=
  fun s => x s.rounds s

def look (f : State → α) : Descent α :=
  fun s => some (some (f s), s)

def change (f : State → State) : Descent Unit :=
  fun s => some (some (), f s)

/-- The outcome of a reader, as a result. -/
def attempt (x : Descent α) : Descent (Option α) :=
  fun s =>
    match x s with
    | some (a, s) => some (some a, s)
    | none => none

def give (a : Option α) : Descent α :=
  fun s => some (a, s)

/-- Write down what a reader did, whether it succeeded or failed. -/
def watched (event : State → Option α → State → Event) (x : Descent α) : Descent α :=
  fun s =>
    match x s with
    | some (a, s') => some (a, s'.note (event s a s'))
    | none => none

def report (problem : Problem) (span : Span) : Descent Unit :=
  change fun s => s.report problem span

def failAt (problem : Problem) (span : Span) : Descent α :=
  fun s => some (none, s.report problem span)

def fail (problem : Problem) : Descent α :=
  fun s => some (none, s.report problem s.span)

def kind : Descent TokenKind :=
  look State.kind

def span : Descent Span :=
  look State.span

def lastSpan : Descent Span :=
  look State.previousSpan

def advance : Descent Token :=
  fun s => some (some s.peek, s.advance)

def eat (kind : TokenKind) : Descent Bool :=
  fun s => if s.kind = kind then some (some true, s.advance) else some (some false, s)

def expect (wanted : TokenKind) : Descent Unit :=
  fun s =>
    if s.kind = wanted then some (some (), s.advance)
    else some (none, s.report (.notExpected wanted s.kind) s.span)

def ident : Descent Ident :=
  fun s =>
    match s.kind with
    | .identifier name => some (some ⟨name, s.span⟩, s.advance)
    | found =>
      if found.isReserved then some (none, s.report (.reservedWord found) s.span)
      else some (none, s.report (.notIdentifier found) s.span)

def lineEndRounds : Nat → Descent Unit
  | 0 => never
  | n + 1 => do
    if ← eat .lineEnd then
      lineEndRounds n
    else
      pure ()

def skipLineEnds : Descent Unit :=
  inRounds lineEndRounds

/-- Pass over tokens up to the end of a line or, with a block open, to a closing brace. -/
def passOver : Nat → Descent Unit
  | 0 => never
  | n + 1 => do
    match ← kind with
    | .fileEnd => pure ()
    | .lineEnd => pure ()
    | .symbol .rightBrace =>
      if 0 < (← look fun s => s.blocks) then
        pure ()
      else
        let _ ← advance
        passOver n
    | _ =>
      let _ ← advance
      passOver n

def synchronize : Descent Unit := do
  watched (fun s _ s' => .recovery s.blocks s.pos s'.pos) (inRounds passOver)
  skipLineEnds

def statementEnd : Descent Unit := do
  match ← kind with
  | .fileEnd => pure ()
  | .symbol .rightBrace => pure ()
  | .lineEnd => skipLineEnds
  | found =>
    report (.notLineEnd found) (← span)
    synchronize

/-! ## Expressions -/

/-- Read one level of expressions deeper.  The level is closed on success and on failure. -/
def nested (x : Descent α) : Descent α := do
  change fun s => { s with exprs := s.exprs + 1 }
  if maxExprDepth < (← look fun s => s.exprs) then
    report .exprTooDeep (← span)
    change fun s => { s with exprs := s.exprs - 1 }
    give none
  else
    let found ← attempt x
    change fun s => { s with exprs := s.exprs - 1 }
    give found

def chainRest (op? : TokenKind → Option BinaryOp) (operand : Descent Expr) :
    Expr → Nat → Descent Expr
  | _, 0 => never
  | left, n + 1 => do
    match op? (← kind) with
    | none => pure left
    | some op =>
      let _ ← advance
      let right ← operand
      chainRest op? operand (Parser.binaryExpr left op right) n

def chain (op? : TokenKind → Option BinaryOp) (operand : Descent Expr) : Descent Expr := do
  let left ← operand
  inRounds (chainRest op? operand left)

def single (op? : TokenKind → Option BinaryOp) (chained : Problem) (operand : Descent Expr) :
    Descent Expr := do
  let left ← operand
  match op? (← kind) with
  | none => pure left
  | some op =>
    let _ ← advance
    let right ← operand
    if (op? (← kind)).isSome then
      fail chained
    else
      pure (Parser.binaryExpr left op right)

def binary (operand : Descent Expr) : Descent Expr :=
  chain Parser.orOp? <| chain Parser.andOp? <| single Parser.equalityOp? .chainedEquality <|
    single Parser.comparisonOp? .chainedComparison <| chain Parser.sumOp? <|
      chain Parser.productOp? operand

def items (expression : Descent Expr) : Nat → Descent (List Expr)
  | 0 => never
  | n + 1 => do
    skipLineEnds
    let item ← expression
    skipLineEnds
    if ← eat (.symbol .comma) then
      let rest ← items expression n
      pure (item :: rest)
    else
      pure [item]

def commaList (expression : Descent Expr) (close : Symbol) : Descent (List Expr) := do
  skipLineEnds
  if ← eat (.symbol close) then
    pure []
  else
    let found ← inRounds (items expression)
    expect (.symbol close)
    pure found

def callArgs (expression : Descent Expr) : Descent (List Expr) := do
  expect (.symbol .leftParen)
  commaList expression .rightParen

def builtinCall (expression : Descent Expr) (callee : Builtin) (start : Span) : Descent Expr := do
  let _ ← advance
  let args ← callArgs expression
  let stop ← lastSpan
  let whole := start.merge stop
  if args.length = callee.arity then
    pure (.builtin whole callee args)
  else
    failAt (.wrongArgumentCount callee args.length) whole

def nameOrCall (expression : Descent Expr) (name : String) (start : Span) : Descent Expr := do
  let _ ← advance
  if (← kind) = .symbol .leftParen then
    let args ← callArgs expression
    let stop ← lastSpan
    pure (.call (start.merge stop) ⟨name, start⟩ args)
  else
    pure (.name start name)

def literal (value : Expr) : Descent Expr := do
  let _ ← advance
  pure value

def listLiteral (expression : Descent Expr) (start : Span) : Descent Expr := do
  let _ ← advance
  let found ← commaList expression .rightBracket
  let stop ← lastSpan
  pure (.list (start.merge stop) found)

def parenthesized (expression : Descent Expr) (start : Span) : Descent Expr := do
  let _ ← advance
  skipLineEnds
  let inner ← expression
  skipLineEnds
  expect (.symbol .rightParen)
  let stop ← lastSpan
  pure (.paren (start.merge stop) inner)

def primary (expression : Descent Expr) : Descent Expr := do
  let start ← span
  match ← kind with
  | .number n => literal (.number start n)
  | .text s => literal (.text start s)
  | .keyword .trueWord => literal (.bool start true)
  | .keyword .falseWord => literal (.bool start false)
  | .keyword .noneWord => literal (.none start)
  | .identifier name =>
    if name = "\"" then fail .unterminatedText else nameOrCall expression name start
  | .builtin callee => builtinCall expression callee start
  | .symbol .leftBracket => listLiteral expression start
  | .symbol .leftParen => parenthesized expression start
  | .lineEnd => fail .missingExpression
  | .fileEnd => fail .missingExpression
  | found => fail (.notExpression found)

def indexRest (expression : Descent Expr) : Expr → Nat → Descent Expr
  | _, 0 => never
  | target, n + 1 => do
    if ← eat (.symbol .leftBracket) then
      skipLineEnds
      let position ← expression
      skipLineEnds
      expect (.symbol .rightBracket)
      let stop ← lastSpan
      indexRest expression (.index (target.span.merge stop) target position) n
    else
      pure target

def indexed (expression : Descent Expr) : Descent Expr := do
  let target ← primary expression
  inRounds (indexRest expression target)

def unaryOver (expression operand : Descent Expr) : Descent Expr := do
  match Parser.unaryOp? (← kind) with
  | none => indexed expression
  | some op =>
    let sign ← advance
    let inner ← operand
    pure (Parser.unaryExpr sign.span op inner)

/-- Operands of binary operators, to a depth of so many calls. -/
def unary : Nat → Descent Expr
  | 0 => never
  | n + 1 => unaryOver (nested (binary (unary n))) (nested (unary n))

def expression : Descent Expr :=
  nested (binary (inRounds unary))

/-! ## Statements -/

def paramList : List Ident → Nat → Descent (List Ident)
  | _, 0 => never
  | seen, n + 1 => do
    skipLineEnds
    let param ← ident
    if seen.any fun p => p.name == param.name then
      report (.repeatedParameter param.name) param.span
    skipLineEnds
    if ← eat (.symbol .comma) then
      paramList (seen ++ [param]) n
    else
      pure (seen ++ [param])

def params : Descent (List Ident) := do
  expect (.symbol .leftParen)
  skipLineEnds
  let found ←
    if (← kind) = .symbol .rightParen then pure []
    else inRounds (paramList [])
  expect (.symbol .rightParen)
  pure found

def varStmt : Descent Stmt := do
  let word ← advance
  let name ← ident
  expect (.symbol .assign)
  let value ← expression
  statementEnd
  pure (.var (word.span.merge value.span) name value)

def assignStmt : Descent Stmt := do
  let name ← ident
  let _ ← advance
  let value ← expression
  statementEnd
  pure (.assign (name.span.merge value.span) name value)

def funcStmt (block : Descent Block) : Descent Stmt := do
  let word ← advance
  let name ← ident
  let found ← params
  let body ← block
  pure (.func (word.span.merge body.span) name found body)

/-- The kind of the first token after the line ends to come, looked for from the `k`-th on. -/
def kindPastLineEnds : Nat → Nat → Descent TokenKind
  | _, 0 => never
  | k, n + 1 => do
    let found ← look fun s => s.ahead k
    if found = .lineEnd then
      kindPastLineEnds (k + 1) n
    else
      pure found

def branches (block : Descent Block) : Nat → Descent Branches
  | 0 => never
  | n + 1 => do
    let condition ← expression
    let body ← block
    let next ← inRounds (kindPastLineEnds 0)
    if next = .keyword .elseWord then
      skipLineEnds
      let _ ← advance
      if ← eat (.keyword .ifWord) then
        let rest ← branches block n
        pure (.branch condition body rest)
      else
        let last ← block
        pure (.branch condition body (.otherwise last))
    else
      pure (.branch condition body .done)

def ifStmt (block : Descent Block) : Descent Stmt := do
  let word ← advance
  let found ← inRounds (branches block)
  pure (.choose (word.span.merge (found.lastSpan?.getD word.span)) found)

def whileStmt (block : Descent Block) : Descent Stmt := do
  let word ← advance
  let condition ← expression
  let body ← block
  pure (.loop (word.span.merge body.span) condition body)

def returnValue : Descent (Option Expr) := do
  match ← kind with
  | .lineEnd => pure none
  | .fileEnd => pure none
  | .symbol .rightBrace => pure none
  | _ =>
    let value ← expression
    pure (some value)

def returnStmt : Descent Stmt := do
  let word ← advance
  let value ← returnValue
  statementEnd
  let whole :=
    match value with
    | some e => word.span.merge e.span
    | none => word.span
  pure (.giveBack whole value)

def exprStmt : Descent Stmt := do
  let value ← expression
  statementEnd
  pure (.expr value.span value)

def startsAssignment (s : State) : Bool :=
  match s.kind, s.ahead 1 with
  | .identifier _, .symbol .assign => true
  | _, _ => false

def anyStatement (block : Descent Block) : Descent Stmt := fun s =>
  match s.kind with
  | .keyword .varWord => varStmt s
  | .keyword .funcWord => funcStmt block s
  | .keyword .ifWord => ifStmt block s
  | .keyword .whileWord => whileStmt block s
  | .keyword .returnWord => returnStmt s
  | .keyword .elseWord => fail .strayElse s
  | _ => if startsAssignment s then assignStmt s else exprStmt s

def statement (block : Descent Block) : Descent Stmt :=
  watched (fun s _ s' => .statement (s.exprs, s.blocks) (s'.exprs, s'.blocks))
    (anyStatement block)

/-- One round of the loop over the statements of a program, or of those of a block.  It gives the
statements read, one or none, or `none` where the loop is left. -/
def round (inBlock : Bool) (stmt : Descent Stmt) : Descent (Option (List Stmt)) :=
  watched (fun s result s' => .round (result.any Option.isSome) s.pos s'.pos) do
    let found ← kind
    if found = .fileEnd ∨ (inBlock ∧ found = .symbol .rightBrace) ∨ (← look State.isFull) then
      pure none
    else if found = .symbol .rightBrace then
      report .unmatchedBrace (← span)
      let _ ← advance
      skipLineEnds
      pure (some [])
    else
      match ← attempt stmt with
      | some stmt =>
        skipLineEnds
        pure (some [stmt])
      | none =>
        synchronize
        skipLineEnds
        pure (some [])

def statements (inBlock : Bool) (stmt : Descent Stmt) : Nat → Descent (List Stmt)
  | 0 => never
  | n + 1 => do
    match ← round inBlock stmt with
    | none => pure []
    | some new =>
      let rest ← statements inBlock stmt n
      pure (new ++ rest)

/-- The statements of a block, one level of blocks deeper. -/
def blockBody (start : Span) (stmt : Descent Stmt) : Descent (List Stmt) := do
  change fun s => { s with blocks := s.blocks + 1 }
  if maxBlockDepth < (← look fun s => s.blocks) then
    report .blockTooDeep start
    change fun s => { s with blocks := s.blocks - 1 }
    give none
  else
    skipLineEnds
    let stmts ← inRounds (statements true stmt)
    change fun s => { s with blocks := s.blocks - 1 }
    pure stmts

/-- A block, to a depth of so many calls. -/
def block : Nat → Descent Block
  | 0 => never
  | n + 1 => do
    let start ← span
    expect (.symbol .leftBrace)
    let stmts ← blockBody start (statement (block n))
    expect (.symbol .rightBrace)
    let stop ← lastSpan
    pure (.mk (start.merge stop) stmts)

def program : Descent Program := do
  let start ← span
  skipLineEnds
  let stmts ← inRounds (statements false (statement (inRounds block)))
  let stop ← lastSpan
  let findings ← look fun s => s.findings
  give (if findings.isEmpty then some ⟨start.merge stop, stmts⟩ else none)

/-- The program that the tokens spell, all that was found wrong with them, and what was written
down on the way; or nothing, if some loop needs more than these rounds. -/
def parse (tokens : List Token) (rounds : Nat) :
    Option ((Option Program × List Finding) × List Event) :=
  (program (.ofTokens tokens rounds)).map fun (found, s) => ((found, s.findings), s.record)

end Descent

end KitchenScript
