import KitchenScript.Json.Basic

/-!
# Writing JSON

Two layouts: without any blank, and with one item to a line, indented by two spaces a level, where
empty containers stay on their line.  In texts only the quote, the backslash and the control
characters are escaped.
-/

namespace KitchenScript.Json

def hexDigit (n : Nat) : Char :=
  Nat.digitChar n

/-- A character as it stands inside a text. -/
def escapeChar (c : Char) : List Char :=
  if c = '"' then ['\\', '"']
  else if c = '\\' then ['\\', '\\']
  else if c = '\n' then ['\\', 'n']
  else if c = '\r' then ['\\', 'r']
  else if c = '\t' then ['\\', 't']
  else if c = '\x08' then ['\\', 'b']
  else if c = '\x0c' then ['\\', 'f']
  else if c.toNat < 32 then
    ['\\', 'u', '0', '0', hexDigit (c.toNat / 16), hexDigit (c.toNat % 16)]
  else [c]

def quote (s : String) : List Char :=
  '"' :: s.toList.flatMap escapeChar ++ ['"']

/-- Values without parts; containers are written by the layouts. -/
def scalar : Json → List Char
  | .null => "null".toList
  | .bool true => "true".toList
  | .bool false => "false".toList
  | .int n => (toString n).toList
  | .fraction literal => literal.toList
  | .text s => quote s
  | .array _ => []
  | .object _ => []
  | .unreadable => "null".toList

mutual

def compact : Json → List Char
  | .array items => '[' :: compactItems items ++ [']']
  | .object fields => '\x7b' :: compactFields fields ++ ['\x7d']
  | value => scalar value

def compactItems : List Json → List Char
  | [] => []
  | [item] => compact item
  | item :: next :: rest => compact item ++ ',' :: compactItems (next :: rest)

def compactFields : List (String × Json) → List Char
  | [] => []
  | [(name, value)] => quote name ++ ':' :: compact value
  | (name, value) :: next :: rest =>
    quote name ++ ':' :: compact value ++ ',' :: compactFields (next :: rest)

end

/-- A new line at a level of indentation. -/
def newLine (level : Nat) : List Char :=
  '\n' :: List.replicate (2 * level) ' '

mutual

/-- The indented layout of a value whose closing bracket stands at `level`. -/
def indented (level : Nat) : Json → List Char
  | .array [] => ['[', ']']
  | .array (item :: rest) =>
    '[' :: indentedItems (level + 1) (item :: rest) ++ newLine level ++ [']']
  | .object [] => ['\x7b', '\x7d']
  | .object (field :: rest) =>
    '\x7b' :: indentedFields (level + 1) (field :: rest) ++ newLine level ++ ['\x7d']
  | value => scalar value

def indentedItems (level : Nat) : List Json → List Char
  | [] => []
  | [item] => newLine level ++ indented level item
  | item :: next :: rest =>
    newLine level ++ indented level item ++ ',' :: indentedItems level (next :: rest)

def indentedFields (level : Nat) : List (String × Json) → List Char
  | [] => []
  | [(name, value)] => newLine level ++ quote name ++ ':' :: ' ' :: indented level value
  | (name, value) :: next :: rest =>
    newLine level ++ quote name ++ ':' :: ' ' :: indented level value
      ++ ',' :: indentedFields level (next :: rest)

end

/-- The value in one line, without blanks. -/
def render (value : Json) : String :=
  String.ofList (compact value)

/-- The value with one item to a line. -/
def pretty (value : Json) : String :=
  String.ofList (indented 0 value)

end KitchenScript.Json
