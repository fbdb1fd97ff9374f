import KitchenScript.Program.Problem
import KitchenScript.Program.Tree

/-!
# A cursor over tokens

The state of a reader: the tokens still to come, the span of the token taken last, and the findings
so far.  A reader either gives a result or fails; what it took and what it found stay with the
cursor in both cases, so that reading can go on after a failure.
-/

namespace KitchenScript

structure Cursor where
  rest : List Token
  last : Span
  findings : List Finding

namespace Cursor

def ofTokens (tokens : List Token) : Cursor :=
  ⟨tokens, .point .start, []⟩

/-- The token to come.  Where there is none the file ends. -/
def peek (c : Cursor) : Token :=
  c.rest.headD ⟨.fileEnd, .point .start⟩

def kind (c : Cursor) : TokenKind :=
  c.peek.kind

def span (c : Cursor) : Span :=
  c.peek.span

def advance (c : Cursor) : Cursor :=
  match c.rest with
  | [] => c
  | t :: rest => { c with rest := rest, last := t.span }

def report (c : Cursor) (problem : Problem) (span : Span) : Cursor :=
  { c with findings := c.findings ++ [⟨problem, span⟩] }

/-- Enough has been found: no further statement is read. -/
def isFull (c : Cursor) : Bool :=
  Diagnostics.capacity ≤ c.findings.length

/-- The tokens after the line ends at the front; `last` becomes the span of the last of these. -/
def skipLineEnds (c : Cursor) : Cursor :=
  go c.rest c.last
where
  go : List Token → Span → Cursor
    | [], last => { c with rest := [], last := last }
    | t :: rest, last =>
      if t.kind = .lineEnd then go rest t.span else { c with rest := t :: rest, last := last }

/-- After a failure: go to the start of the next line, or inside a block to a closing brace. -/
def synchronize (inBlock : Bool) (c : Cursor) : Cursor :=
  go c.rest c.last
where
  go : List Token → Span → Cursor
    | [], last => { c with rest := [], last := last }
    | t :: rest, last =>
      if t.kind = .fileEnd then
        { c with rest := t :: rest, last := last }
      else if t.kind = .lineEnd then
        skipLineEnds { c with rest := t :: rest, last := last }
      else if inBlock ∧ t.kind = .symbol .rightBrace then
        { c with rest := t :: rest, last := last }
      else
        go rest t.span

/-- The kind of the first token after the line ends to come. -/
def kindPastLineEnds (c : Cursor) : TokenKind :=
  ((c.rest.dropWhile fun t => t.kind == .lineEnd).headD ⟨.fileEnd, .point .start⟩).kind

end Cursor

/-- A reader: a result or none, and the cursor it leaves. -/
def Parser (α : Type) : Type :=
  Cursor → Option α × Cursor

namespace Parser

@[inline] def pure (a : α) : Parser α :=
  fun c => (some a, c)

@[inline] def bind (x : Parser α) (f : α → Parser β) : Parser β :=
  fun c =>
    match x c with
    | (some a, c) => f a c
    | (none, c) => (none, c)

instance : Monad Parser where
  pure := pure
  bind := bind

/-- Fail, reporting a problem at the given span. -/
def failAt (problem : Problem) (span : Span) : Parser α :=
  fun c => (none, c.report problem span)

/-- Fail, reporting a problem at the token to come. -/
def fail (problem : Problem) : Parser α :=
  fun c => (none, c.report problem c.span)

def kind : Parser TokenKind :=
  fun c => (some c.kind, c)

def span : Parser Span :=
  fun c => (some c.span, c)

def lastSpan : Parser Span :=
  fun c => (some c.last, c)

/-- Take one token. -/
def advance : Parser Token :=
  fun c => (some c.peek, c.advance)

def skipLineEnds : Parser Unit :=
  fun c => (some (), c.skipLineEnds)

/-- Take the token to come if it has this kind. -/
def eat (kind : TokenKind) : Parser Bool :=
  fun c => if c.kind = kind then (some true, c.advance) else (some false, c)

/-- Take a token of this kind, or fail. -/
def expect (wanted : TokenKind) : Parser Unit :=
  fun c =>
    if c.kind = wanted then (some (), c.advance)
    else (none, c.report (.notExpected wanted c.kind) c.span)

def ident : Parser Ident :=
  fun c =>
    match c.kind with
    | .identifier name => (some ⟨name, c.span⟩, c.advance)
    | found =>
      if found.isReserved then (none, c.report (.reservedWord found) c.span)
      else (none, c.report (.notIdentifier found) c.span)

/-- A simple statement ends at a line end, at the end of the file, or before the brace that closes
its block.  Anything else is reported and passed over; the statement itself stands. -/
def statementEnd (inBlock : Bool) : Parser Unit :=
  fun c =>
    match c.kind with
    | .fileEnd => (some (), c)
    | .symbol .rightBrace => (some (), c)
    | .lineEnd => (some (), c.skipLineEnds)
    | found => (some (), (c.report (.notLineEnd found) c.span).synchronize inBlock)

end Parser

end KitchenScript
