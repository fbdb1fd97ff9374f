import KitchenScript.Program.Stats
import KitchenScript.Program.Statement
import KitchenScript.Token.Lexer

/-!
# Compiling a source

From a source text to its tokens, its program and figures when nothing is wrong with it, and the
diagnostics.
-/

namespace KitchenScript

structure Compiled where
  program : Option Program
  stats : Option Stats
  tokens : List Token
  diagnostics : Diagnostics

namespace Compiled

def succeeded (c : Compiled) : Bool :=
  !c.diagnostics.hasErrors

end Compiled

/-- Read a program from tokens; diagnostics quote the lines of the source. -/
def parseTokens (source : Source) (tokens : List Token) : Option Program × Diagnostics :=
  let (program, findings) := Program.ofTokens tokens
  (program, .ofList (findings.map (Finding.diagnose source)))

def compile (source : Source) : Compiled :=
  let tokens := tokenize source.text
  let (program, diagnostics) := parseTokens source tokens
  { program := program
    stats := program.map Stats.ofProgram
    tokens := tokens
    diagnostics := diagnostics }

end KitchenScript
