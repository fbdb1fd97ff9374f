import KitchenScript.Diagnostic
import KitchenScript.Token.Basic

/-!
# What can be wrong with a script

The reasons for which a list of tokens is no program, each with its code, its message and, for a
reserved word in place of a name, a suggestion.  A finding is a problem with the span it applies to;
it depends on the tokens alone and becomes a diagnostic once the source is known.
-/

namespace KitchenScript

/-- The deepest nesting of expressions that is read. -/
def maxExprDepth : Nat := 64

/-- The deepest nesting of blocks that is read. -/
def maxBlockDepth : Nat := 32

inductive Problem where
  | notExpected (wanted found : TokenKind)
  | notLineEnd (found : TokenKind)
  | reservedWord (found : TokenKind)
  | notIdentifier (found : TokenKind)
  | unmatchedBrace
  | strayElse
  | exprTooDeep
  | blockTooDeep
  | repeatedParameter (name : String)
  | chainedEquality
  | chainedComparison
  | unterminatedText
  | wrongArgumentCount (call : Builtin) (found : Nat)
  | missingExpression
  | notExpression (found : TokenKind)
deriving DecidableEq

namespace Problem

def code : Problem → Code
  | notExpected wanted found =>
    if wanted = .symbol .rightBrace ∧ found = .fileEnd then .unclosedBlock else .unexpectedToken
  | notLineEnd _ => .expectedLineEnd
  | strayElse => .danglingElse
  | exprTooDeep => .nestingLimit
  | blockTooDeep => .nestingLimit
  | repeatedParameter _ => .duplicateParameter
  | unterminatedText => .invalidLiteral
  | _ => .unexpectedToken

def message : Problem → String
  | notExpected wanted found => s!"expected '{wanted.render}', got '{found.render}'"
  | notLineEnd found => s!"expected end of line, got '{found.render}'"
  | reservedWord found => s!"'{found.render}' is a reserved word"
  | notIdentifier found => s!"expected identifier, got '{found.render}'"
  | unmatchedBrace => "unmatched '\x7d'"
  | strayElse => "'else' without a matching 'if'"
  | exprTooDeep => s!"expressions may nest at most {maxExprDepth} deep"
  | blockTooDeep => s!"blocks may nest at most {maxBlockDepth} deep"
  | repeatedParameter name => s!"parameter '{name}' is declared twice"
  | chainedEquality => "equality operators cannot be chained; use 'and'"
  | chainedComparison => "comparison operators cannot be chained; use 'and'"
  | unterminatedText => "unterminated string literal"
  | wrongArgumentCount call found => s!"{call.name} takes {call.arity} argument(s), got {found}"
  | missingExpression => "expected an expression before the end of the line"
  | notExpression found => s!"expected an expression, got '{found.render}'"

def suggestion? : Problem → Option String
  | reservedWord _ => some "pick a different name"
  | _ => none

end Problem

structure Finding where
  problem : Problem
  span : Span
deriving DecidableEq

namespace Finding

/-- The diagnostic of a finding in a source; it quotes the line where the span starts. -/
def diagnose (source : Source) (f : Finding) : Diagnostic :=
  .ofCode source.name f.problem.code f.problem.message f.span
    ((source.line? f.span.first.line).getD "") f.problem.suggestion?

end Finding

end KitchenScript
