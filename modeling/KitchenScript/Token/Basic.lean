import KitchenScript.Builtin
import KitchenScript.Number
import KitchenScript.Source.Span

/-!
# Tokens

The lexemes of the language.  A token is a kind together with the span it was read from; the kind
alone decides how a program is read.
-/

namespace KitchenScript

/-- The reserved words other than the kitchen calls. -/
inductive Keyword where
  | varWord
  | funcWord
  | returnWord
  | ifWord
  | elseWord
  | whileWord
  | trueWord
  | falseWord
  | noneWord
  | andWord
  | orWord
  | notWord
deriving DecidableEq

namespace Keyword

def all : List Keyword :=
  [varWord, funcWord, returnWord, ifWord, elseWord, whileWord, trueWord, falseWord, noneWord,
    andWord, orWord, notWord]

def spelling : Keyword → String
  | varWord => "var"
  | funcWord => "func"
  | returnWord => "return"
  | ifWord => "if"
  | elseWord => "else"
  | whileWord => "while"
  | trueWord => "true"
  | falseWord => "false"
  | noneWord => "none"
  | andWord => "and"
  | orWord => "or"
  | notWord => "not"

end Keyword

/-- Operators and punctuation.  The symbols `&&`, `||` and `!` are other spellings of keywords. -/
inductive Symbol where
  | assign
  | equal
  | notEqual
  | less
  | lessEqual
  | greater
  | greaterEqual
  | plus
  | minus
  | star
  | slash
  | percent
  | hash
  | leftParen
  | rightParen
  | leftBrace
  | rightBrace
  | leftBracket
  | rightBracket
  | comma
  | dot
deriving DecidableEq

namespace Symbol

def spelling : Symbol → String
  | assign => "="
  | equal => "=="
  | notEqual => "!="
  | less => "<"
  | lessEqual => "<="
  | greater => ">"
  | greaterEqual => ">="
  | plus => "+"
  | minus => "-"
  | star => "*"
  | slash => "/"
  | percent => "%"
  | hash => "#"
  | leftParen => "("
  | rightParen => ")"
  | leftBrace => "\x7b"
  | rightBrace => "\x7d"
  | leftBracket => "["
  | rightBracket => "]"
  | comma => ","
  | dot => "."

end Symbol

inductive TokenKind where
  | number (value : Number)
  | text (content : String)
  | identifier (name : String)
  | keyword (word : Keyword)
  | builtin (call : Builtin)
  | symbol (mark : Symbol)
  | lineEnd
  | fileEnd
deriving DecidableEq

/-- Coarse classes, for tools that only look at the shape of a text. -/
inductive TokenCategory where
  | keyword
  | identifier
  | integer
  | text
  | symbol
  | lineEnd
  | fileEnd
deriving DecidableEq

namespace TokenKind

/-- Every word that cannot name a variable or a function. -/
def reservedWords : List String :=
  Keyword.all.map Keyword.spelling ++ Builtin.all.map Builtin.name

/-- The kind of a reserved word. -/
def ofWord? (word : String) : Option TokenKind :=
  match Keyword.all.find? fun k => k.spelling == word with
  | some k => some (.keyword k)
  | none => (Builtin.ofName? word).map .builtin

def category : TokenKind → TokenCategory
  | number _ => .integer
  | text _ => .text
  | identifier _ => .identifier
  | keyword _ => .keyword
  | builtin _ => .keyword
  | symbol _ => .symbol
  | lineEnd => .lineEnd
  | fileEnd => .fileEnd

def isReserved (kind : TokenKind) : Bool :=
  kind.category == .keyword

def render : TokenKind → String
  | number n => n.render
  | text s => "\"" ++ s ++ "\""
  | identifier name => name
  | keyword k => k.spelling
  | builtin b => b.name
  | symbol s => s.spelling
  | lineEnd => "end of line"
  | fileEnd => "end of file"

end TokenKind

structure Token where
  kind : TokenKind
  span : Span
deriving DecidableEq

end KitchenScript
