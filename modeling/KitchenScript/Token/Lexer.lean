import KitchenScript.Text.Blank
import KitchenScript.Token.Basic

/-!
# Reading tokens

Every text has a list of tokens, which ends with the end of the file.  Characters without a meaning
are handed on as identifiers, so that the reader of the program can refuse them where they stand.

Between tokens spaces, tabs, carriage returns, zero-width marks and comments are skipped.  A lexeme
is found as its kind and the number of characters it takes; only a line end leaves the line.
-/

namespace KitchenScript.Lexer

/-- A comment runs up to the line end, which is not part of it. -/
def commentLength : List Char → Nat
  | [] => 0
  | '\n' :: _ => 0
  | '\r' :: '\n' :: _ => 0
  | _ :: cs => commentLength cs + 1

/-- The characters skipped one by one: space, tab, carriage return, zero-width space, byte-order
mark. -/
def isSkipped (c : Char) : Bool :=
  c == ' ' || c == '\t' || c == '\r' || c == '\u200B' || c == '\uFEFF'

/-- How many characters in front of the next token are skipped. -/
def skipLength : List Char → Nat
  | [] => 0
  | '\r' :: '\n' :: _ => 0
  | '/' :: '/' :: cs => commentLength cs + 2
  | c :: cs => if isSkipped c then skipLength cs + 1 else 0

def isWordChar (c : Char) : Bool :=
  c.isAlphanum || c == '_'

/-- A run of word characters is a number, a reserved word or an identifier.  Digits whose value is
out of range are an identifier. -/
def wordKind (word : List Char) : TokenKind :=
  let name := String.ofList word
  let other := (TokenKind.ofWord? name).getD (.identifier name)
  if word.all Char.isDigit then
    match Number.ofDigits? word with
    | some n => .number n
    | none => other
  else
    other

/-- The text up to the closing quote, which has to stand on the same line. -/
def closedText? : List Char → Option (List Char)
  | [] => none
  | c :: cs =>
    if c = '"' then some []
    else if c = '\n' then none
    else (closedText? cs).map (c :: ·)

/-- Symbols of two characters. -/
def pairKind? : Char → Char → Option TokenKind
  | '=', '=' => some (.symbol .equal)
  | '!', '=' => some (.symbol .notEqual)
  | '<', '=' => some (.symbol .lessEqual)
  | '>', '=' => some (.symbol .greaterEqual)
  | '&', '&' => some (.keyword .andWord)
  | '|', '|' => some (.keyword .orWord)
  | _, _ => none

/-- Symbols of one character. -/
def singleKind? : Char → Option TokenKind
  | '=' => some (.symbol .assign)
  | '!' => some (.keyword .notWord)
  | '<' => some (.symbol .less)
  | '>' => some (.symbol .greater)
  | '+' => some (.symbol .plus)
  | '-' => some (.symbol .minus)
  | '*' => some (.symbol .star)
  | '/' => some (.symbol .slash)
  | '%' => some (.symbol .percent)
  | '#' => some (.symbol .hash)
  | '(' => some (.symbol .leftParen)
  | ')' => some (.symbol .rightParen)
  | '\x7b' => some (.symbol .leftBrace)
  | '\x7d' => some (.symbol .rightBrace)
  | '[' => some (.symbol .leftBracket)
  | ']' => some (.symbol .rightBracket)
  | ',' => some (.symbol .comma)
  | '.' => some (.symbol .dot)
  | _ => none

/-- The symbol at the front of a text, the longer one first, and its length. -/
def symbol? : List Char → Option (TokenKind × Nat)
  | [] => none
  | [c] => (singleKind? c).map (·, 1)
  | c :: d :: _ =>
    match pairKind? c d with
    | some kind => some (kind, 2)
    | none => (singleKind? c).map (·, 1)

/-- Does an unknown run stop before this text? -/
def endsUnknown : List Char → Bool
  | [] => true
  | c :: cs =>
    Text.isBlank c || isWordChar c || c == '"' || c == '\u200B' || c == '\uFEFF'
      || (symbol? (c :: cs)).isSome

/-- The characters without a meaning at the front of a text. -/
def unknownRun : List Char → List Char
  | [] => []
  | c :: cs => if endsUnknown (c :: cs) then [] else c :: unknownRun cs

/-- The lexeme that starts with `c`: its kind and the number of its characters. -/
def lexeme (c : Char) (cs : List Char) : TokenKind × Nat :=
  if c = '\n' then
    (.lineEnd, 1)
  else if c = '\r' then
    (.lineEnd, 2)
  else if c = '"' then
    match closedText? cs with
    | some content => (.text (String.ofList content), content.length + 2)
    | none => (.identifier "\"", 1)
  else if isWordChar c then
    let word := c :: cs.takeWhile isWordChar
    (wordKind word, word.length)
  else
    match symbol? (c :: cs) with
    | some (kind, length) => (kind, length)
    | none =>
      let run := c :: unknownRun cs
      (.identifier (String.ofList run), run.length)

/-- The span of a lexeme; a line end is the point where it starts. -/
def lexemeSpan (p : Position) (kind : TokenKind) (length : Nat) : Span :=
  if kind = .lineEnd then .point p else ⟨p, ⟨p.line, p.column + length - 1⟩⟩

/-- The position after a lexeme. -/
def lexemeEnd (p : Position) (kind : TokenKind) (length : Nat) : Position :=
  if kind = .lineEnd then ⟨p.line + 1, 1⟩ else ⟨p.line, p.column + length⟩

/-- The tokens of a text that starts at position `p`. -/
def tokensFrom (p : Position) (cs : List Char) : List Token :=
  let skipped := skipLength cs
  let q : Position := ⟨p.line, p.column + skipped⟩
  match _hrest : cs.drop skipped with
  | [] => [⟨.fileEnd, .point q⟩]
  | c :: rest =>
    let (kind, length) := lexeme c rest
    ⟨kind, lexemeSpan q kind length⟩
      :: tokensFrom (lexemeEnd q kind length) (rest.drop (length - 1))
termination_by cs.length
decreasing_by
  have hlen := congrArg List.length _hrest
  simp only [List.length_drop, List.length_cons] at hlen ⊢
  omega

end KitchenScript.Lexer

namespace KitchenScript

/-- The tokens of a text. -/
def tokenize (text : String) : List Token :=
  Lexer.tokensFrom .start text.toList

end KitchenScript
