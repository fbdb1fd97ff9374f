import KitchenScript.Program.Statement

/-!
# Reading with signs of their own

The reader takes a minus in front of a number into the number.  Here the reader is given what to
make of a sign and its operand, so that it can also be run with a rule that gives every sign a node
of its own; with the rule of the language it is the reader of the language.
-/

namespace KitchenScript

/-! ## The reader over a rule for signs -/

namespace Parser

/-- What to make of a sign with its operand. -/
abbrev SignRule := Span → UnaryOp → Expr → Expr

/-- Every sign has a node of its own. -/
def plainSign : SignRule := fun start op operand =>
  .unary (start.merge operand.span) op operand

/-- A reader that is told the tokens to come, to bound its rounds. -/
def bounded (p : List Token → Parser α) : Parser α := fun c =>
  p c.rest c

def kindPastLineEnds : Parser TokenKind := fun c =>
  (some c.kindPastLineEnds, c)

def unaryOverWith (sign : SignRule) (expression operand : Parser Expr) : Parser Expr := do
  match unaryOp? (← kind) with
  | none => indexed expression
  | some op =>
    let mark ← advance
    let inner ← operand
    pure (sign mark.span op inner)

def unaryWith (sign : SignRule) (levels : Nat) : Parser Expr :=
  match levels with
  | 0 => unaryOverWith sign (fail .exprTooDeep) (fail .exprTooDeep)
  | levels + 1 => unaryOverWith sign (binary (unaryWith sign levels)) (unaryWith sign levels)

def expressionWith (sign : SignRule) : Parser Expr :=
  binary (unaryWith sign (maxExprDepth - 1))

section Statements

variable (expression : Parser Expr)

def varStmtWith (inBlock : Bool) : Parser Stmt := do
  let word ← advance
  let name ← ident
  expect (.symbol .assign)
  let value ← expression
  statementEnd inBlock
  pure (.var (word.span.merge value.span) name value)

def assignStmtWith (inBlock : Bool) : Parser Stmt := do
  let name ← ident
  let _ ← advance
  let value ← expression
  statementEnd inBlock
  pure (.assign (name.span.merge value.span) name value)

def branchesWith (block : Parser Block) : List Token → Parser Branches
  | [] => fail .missingExpression
  | _ :: bound => do
    let condition ← expression
    let body ← block
    let next ← kindPastLineEnds
    if next = .keyword .elseWord then
      skipLineEnds
      let _ ← advance
      if ← eat (.keyword .ifWord) then
        let rest ← branchesWith block bound
        pure (.branch condition body rest)
      else
        let last ← block
        pure (.branch condition body (.otherwise last))
    else
      pure (.branch condition body .done)

def ifStmtWith (block : Parser Block) : Parser Stmt := do
  let word ← advance
  let found ← bounded (branchesWith expression block)
  pure (.choose (word.span.merge (found.lastSpan?.getD word.span)) found)

def whileStmtWith (block : Parser Block) : Parser Stmt := do
  let word ← advance
  let condition ← expression
  let body ← block
  pure (.loop (word.span.merge body.span) condition body)

def returnValueWith : Parser (Option Expr) := do
  match ← kind with
  | .lineEnd => pure none
  | .fileEnd => pure none
  | .symbol .rightBrace => pure none
  | _ =>
    let value ← expression
    pure (some value)

def returnStmtWith (inBlock : Bool) : Parser Stmt := do
  let word ← advance
  let value ← returnValueWith expression
  statementEnd inBlock
  let whole :=
    match value with
    | some e => word.span.merge e.span
    | none => word.span
  pure (.giveBack whole value)

def exprStmtWith (inBlock : Bool) : Parser Stmt := do
  let value ← expression
  statementEnd inBlock
  pure (.expr value.span value)

def statementWith (inBlock : Bool) (block : Parser Block) : Parser Stmt := fun c =>
  match c.kind with
  | .keyword .varWord => varStmtWith expression inBlock c
  | .keyword .funcWord => funcStmt block c
  | .keyword .ifWord => ifStmtWith expression block c
  | .keyword .whileWord => whileStmtWith expression block c
  | .keyword .returnWord => returnStmtWith expression inBlock c
  | .keyword .elseWord => fail .strayElse c
  | _ =>
    if startsAssignment c then assignStmtWith expression inBlock c
    else exprStmtWith expression inBlock c

def blockWith (levels : Nat) : Parser Block :=
  match levels with
  | 0 => do
    let start ← span
    expect (.symbol .leftBrace)
    failAt .blockTooDeep start
  | levels + 1 => do
    let start ← span
    expect (.symbol .leftBrace)
    skipLineEnds
    let stmts ← blockBody (statementWith expression true (blockWith levels))
    expect (.symbol .rightBrace)
    let stop ← lastSpan
    pure (.mk (start.merge stop) stmts)

end Statements

end Parser

/-- The program that a list of tokens spells under a rule for signs, and all that was found wrong
with it. -/
def Program.ofTokensWith (sign : Parser.SignRule) (tokens : List Token) :
    Option Program × List Finding :=
  let expression := Parser.expressionWith sign
  let c := Cursor.ofTokens tokens
  let start := c.span
  let c := c.skipLineEnds
  let (stmts, c) := Parser.statements false
    (Parser.statementWith expression false (Parser.blockWith expression maxBlockDepth)) c.rest c
  (if c.findings.isEmpty then some ⟨start.merge c.last, stmts⟩ else none, c.findings)

namespace Parser

theorem unaryWith_unaryExpr (levels : Nat) : unaryWith unaryExpr levels = unary levels := by
  induction levels with
  | zero => rfl
  | succ levels ih =>
      rw [unaryWith, ih]
      rfl

theorem expressionWith_unaryExpr : expressionWith unaryExpr = expression := by
  rw [expressionWith, unaryWith_unaryExpr]
  rfl

theorem branchesWith_expression (block : Parser Block) (bound : List Token) :
    branchesWith expression block bound = branches block bound := by
  induction bound with
  | nil => rfl
  | cons t bound ih =>
      rw [branchesWith, ih]
      rfl

theorem statementWith_expression (inBlock : Bool) (block : Parser Block) :
    statementWith expression inBlock block = statement inBlock block := by
  have hbranches : branchesWith expression block = branches block :=
    funext (branchesWith_expression block)
  have hif : ifStmtWith expression block = ifStmt block := by
    rw [ifStmtWith, hbranches]
    rfl
  funext c
  rw [statementWith, hif]
  rfl

theorem blockWith_expression (levels : Nat) : blockWith expression levels = block levels := by
  induction levels with
  | zero => rfl
  | succ levels ih =>
      rw [blockWith, ih, statementWith_expression]
      rfl

end Parser

/-- With the rule of the language the reader is that of the language. -/
theorem Program.ofTokensWith_unaryExpr (tokens : List Token) :
    ofTokensWith Parser.unaryExpr tokens = ofTokens tokens := by
  rw [ofTokensWith, Parser.expressionWith_unaryExpr, Parser.blockWith_expression,
    Parser.statementWith_expression]
  rfl

end KitchenScript
