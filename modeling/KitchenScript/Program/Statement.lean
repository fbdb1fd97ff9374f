import KitchenScript.Program.Expression

/-!
# Reading programs

Statements, blocks and whole programs.  A statement that cannot be read is passed over up to the
next line, or inside a block up to a closing brace, and reading goes on; a program is given only
when nothing was found wrong.

Blocks nest at most `maxBlockDepth` deep, and the recursion is on the levels that may still be
opened.
-/

namespace KitchenScript.Parser

/-- Parameters separated by commas.  A repeated name is reported, and reading goes on. -/
def paramList : List Token → List Ident → Parser (List Ident)
  | [], seen => pure seen
  | _ :: bound, seen => do
    skipLineEnds
    let param ← ident
    if seen.any fun p => p.name == param.name then
      fun c => (some (), c.report (.repeatedParameter param.name) param.span)
    skipLineEnds
    if ← eat (.symbol .comma) then
      paramList bound (seen ++ [param])
    else
      pure (seen ++ [param])

def params : Parser (List Ident) := do
  expect (.symbol .leftParen)
  skipLineEnds
  let found ←
    if (← kind) = .symbol .rightParen then pure []
    else fun c => paramList c.rest [] c
  expect (.symbol .rightParen)
  pure found

def varStmt (inBlock : Bool) : Parser Stmt := do
  let word ← advance
  let name ← ident
  expect (.symbol .assign)
  let value ← expression
  statementEnd inBlock
  pure (.var (word.span.merge value.span) name value)

def assignStmt (inBlock : Bool) : Parser Stmt := do
  let name ← ident
  let _ ← advance
  let value ← expression
  statementEnd inBlock
  pure (.assign (name.span.merge value.span) name value)

def funcStmt (block : Parser Block) : Parser Stmt := do
  let word ← advance
  let name ← ident
  let found ← params
  let body ← block
  pure (.func (word.span.merge body.span) name found body)

/-- The chain of an `if` from its first condition on.  Line ends before an `else` are skipped, and
only those. -/
def branches (block : Parser Block) : List Token → Parser Branches
  | [] => fail .missingExpression
  | _ :: bound => do
    let condition ← expression
    let body ← block
    let next ← fun c => (some c.kindPastLineEnds, c)
    if next = .keyword .elseWord then
      skipLineEnds
      let _ ← advance
      if ← eat (.keyword .ifWord) then
        let rest ← branches block bound
        pure (.branch condition body rest)
      else
        let last ← block
        pure (.branch condition body (.otherwise last))
    else
      pure (.branch condition body .done)

def ifStmt (block : Parser Block) : Parser Stmt := do
  let word ← advance
  let found ← fun c => branches block c.rest c
  pure (.choose (word.span.merge (found.lastSpan?.getD word.span)) found)

def whileStmt (block : Parser Block) : Parser Stmt := do
  let word ← advance
  let condition ← expression
  let body ← block
  pure (.loop (word.span.merge body.span) condition body)

/-- The value after `return`, absent where the statement ends. -/
def returnValue : Parser (Option Expr) := do
  match ← kind with
  | .lineEnd => pure none
  | .fileEnd => pure none
  | .symbol .rightBrace => pure none
  | _ =>
    let value ← expression
    pure (some value)

def returnStmt (inBlock : Bool) : Parser Stmt := do
  let word ← advance
  let value ← returnValue
  statementEnd inBlock
  let whole :=
    match value with
    | some e => word.span.merge e.span
    | none => word.span
  pure (.giveBack whole value)

def exprStmt (inBlock : Bool) : Parser Stmt := do
  let value ← expression
  statementEnd inBlock
  pure (.expr value.span value)

/-- Is an assignment to come: a name and then the mark of assignment? -/
def startsAssignment (c : Cursor) : Bool :=
  match c.rest with
  | ⟨.identifier _, _⟩ :: ⟨.symbol .assign, _⟩ :: _ => true
  | _ => false

/-- A statement, given how to read a block. -/
def statement (inBlock : Bool) (block : Parser Block) : Parser Stmt := fun c =>
  match c.kind with
  | .keyword .varWord => varStmt inBlock c
  | .keyword .funcWord => funcStmt block c
  | .keyword .ifWord => ifStmt block c
  | .keyword .whileWord => whileStmt block c
  | .keyword .returnWord => returnStmt inBlock c
  | .keyword .elseWord => fail .strayElse c
  | _ => if startsAssignment c then assignStmt inBlock c else exprStmt inBlock c

/-- Statements up to the end of the file, inside a block up to a closing brace, or until enough has
been found.  Outside of blocks a closing brace is reported and dropped. -/
def statements (inBlock : Bool) (stmt : Parser Stmt) : List Token → Cursor → List Stmt × Cursor
  | [], c => ([], c)
  | _ :: bound, c =>
    if c.kind = .fileEnd ∨ (inBlock ∧ c.kind = .symbol .rightBrace) ∨ c.isFull then
      ([], c)
    else if c.kind = .symbol .rightBrace then
      statements inBlock stmt bound (c.report .unmatchedBrace c.span).advance.skipLineEnds
    else
      match stmt c with
      | (some s, c) =>
        let (rest, c) := statements inBlock stmt bound c.skipLineEnds
        (s :: rest, c)
      | (none, c) => statements inBlock stmt bound (c.synchronize inBlock).skipLineEnds

/-- The statements of a block, which has just been opened. -/
def blockBody (stmt : Parser Stmt) : Parser (List Stmt) := fun c =>
  let (stmts, c) := statements true stmt c.rest c
  (some stmts, c)

/-- A block, with `levels` levels left to open. -/
def block (levels : Nat) : Parser Block :=
  match levels with
  | 0 => do
    let start ← span
    expect (.symbol .leftBrace)
    failAt .blockTooDeep start
  | levels + 1 => do
    let start ← span
    expect (.symbol .leftBrace)
    skipLineEnds
    let stmts ← blockBody (statement true (block levels))
    expect (.symbol .rightBrace)
    let stop ← lastSpan
    pure (.mk (start.merge stop) stmts)

end KitchenScript.Parser

namespace KitchenScript.Program

/-- The program that a list of tokens spells, unless something is wrong with it, and all that was
found wrong, in the order in which it was found. -/
def ofTokens (tokens : List Token) : Option Program × List Finding :=
  let c := Cursor.ofTokens tokens
  let start := c.span
  let c := c.skipLineEnds
  let (stmts, c) :=
    Parser.statements false (Parser.statement false (Parser.block maxBlockDepth)) c.rest c
  (if c.findings.isEmpty then some ⟨start.merge c.last, stmts⟩ else none, c.findings)

end KitchenScript.Program
