import KitchenScript.Json.Basic
import KitchenScript.Json.Magnitude

/-!
# Reading JSON

A strict reader: nothing but blanks may follow the value, control characters do not stand in texts,
and numbers are written without superfluous zeros.  The recursion is bounded by the length of the
text, of which every nested value takes at least one character.
-/

namespace KitchenScript.Json.Reader

def isSpace (c : Char) : Bool :=
  c == ' ' || c == '\n' || c == '\t' || c == '\r'

def skipSpaces (cs : List Char) : List Char :=
  cs.dropWhile isSpace

def hexValue? (c : Char) : Option Nat :=
  if '0' ≤ c ∧ c ≤ '9' then some (c.toNat - '0'.toNat)
  else if 'a' ≤ c ∧ c ≤ 'f' then some (c.toNat - 'a'.toNat + 10)
  else if 'A' ≤ c ∧ c ≤ 'F' then some (c.toNat - 'A'.toNat + 10)
  else none

/-- The value of four hexadecimal digits. -/
def hexUnit? (a b c d : Char) : Option Nat := do
  let a ← hexValue? a
  let b ← hexValue? b
  let c ← hexValue? c
  let d ← hexValue? d
  return ((a * 16 + b) * 16 + c) * 16 + d

/-- The character that a backslash and a letter stand for. -/
def shortEscape? : Char → Option Char
  | '"' => some '"'
  | '\\' => some '\\'
  | '/' => some '/'
  | 'b' => some '\x08'
  | 'f' => some '\x0c'
  | 'n' => some '\n'
  | 'r' => some '\r'
  | 't' => some '\t'
  | _ => none

/-- The codes of a text up to its closing quote, and what follows the quote.  A character gives its
code point; a numeric escape gives the code it names, which may be half a surrogate pair. -/
def textCodes? : List Char → Option (List Nat × List Char)
  | [] => none
  | '"' :: rest => some ([], rest)
  | '\\' :: 'u' :: a :: b :: c :: d :: rest => do
    let code ← hexUnit? a b c d
    let (codes, rest) ← textCodes? rest
    return (code :: codes, rest)
  | '\\' :: e :: rest => do
    let c ← shortEscape? e
    let (codes, rest) ← textCodes? rest
    return (c.toNat :: codes, rest)
  | c :: rest =>
    if c.toNat < 32 || c == '\\' then none
    else do
      let (codes, rest) ← textCodes? rest
      return (c.toNat :: codes, rest)

def isHighHalf (code : Nat) : Bool :=
  0xD800 ≤ code && code < 0xDC00

def isLowHalf (code : Nat) : Bool :=
  0xDC00 ≤ code && code < 0xE000

/-- The character of a surrogate pair. -/
def pairChar (high low : Nat) : Char :=
  Char.ofNat (0x10000 + (high - 0xD800) * 0x400 + (low - 0xDC00))

/-- The characters of a list of codes; half a surrogate pair has none. -/
def codesToChars? : List Nat → Option (List Char)
  | [] => some []
  | [code] => if isHighHalf code || isLowHalf code then none else some [Char.ofNat code]
  | code :: next :: rest =>
    if isHighHalf code then
      if isLowHalf next then (codesToChars? rest).map (pairChar code next :: ·) else none
    else if isLowHalf code then
      none
    else
      (codesToChars? (next :: rest)).map (Char.ofNat code :: ·)

/-- A text after its opening quote: its content, if it has one, and what follows. -/
def text? (cs : List Char) : Option (Option String × List Char) := do
  let (codes, rest) ← textCodes? cs
  return ((codesToChars? codes).map String.ofList, rest)

/-- The digits of a fraction part, if there is one. -/
def fractionPart? : List Char → Option (List Char × List Char)
  | '.' :: cs =>
    let digits := cs.takeWhile Char.isDigit
    if digits.isEmpty then none else some (digits, cs.dropWhile Char.isDigit)
  | cs => some ([], cs)

/-- The exponent, if there is one, with how it was written. -/
def exponentPart? : List Char → Option (Int × List Char × List Char)
  | c :: cs =>
    if c == 'e' || c == 'E' then
      let (sign, body) : List Char × List Char :=
        match cs with
        | '+' :: r => (['+'], r)
        | '-' :: r => (['-'], r)
        | r => ([], r)
      let digits := body.takeWhile Char.isDigit
      let size : Int := Nat.ofDigitChars 10 digits 0
      if digits.isEmpty then none
      else some (if sign == ['-'] then -size else size, c :: sign ++ digits,
        body.dropWhile Char.isDigit)
    else some (0, [], c :: cs)
  | [] => some (0, [], [])

/-- The value of a number; minus zero is no whole number. -/
def numberValue (negative : Bool) (whole decimals : List Char) (exponent : Int)
    (written : List Char) : Json :=
  let digits := Nat.ofDigitChars 10 (whole ++ decimals) 0
  let literal := String.ofList <|
    (if negative then ['-'] else []) ++ whole
      ++ (if decimals.isEmpty then [] else '.' :: decimals) ++ written
  if !(Scaled.ofLiteral whole decimals exponent).isFinite then .unreadable
  else if decimals.isEmpty && written.isEmpty && !(negative && digits == 0) then
    .int (if negative then -(digits : Int) else digits)
  else .fraction literal

def number? (cs : List Char) : Option (Json × List Char) :=
  let (negative, cs) : Bool × List Char :=
    match cs with
    | '-' :: r => (true, r)
    | r => (false, r)
  let whole := cs.takeWhile Char.isDigit
  if whole.isEmpty || (whole.length != 1 && whole.head? == some '0') then none
  else do
    let (decimals, rest) ← fractionPart? (cs.dropWhile Char.isDigit)
    let (exponent, written, rest) ← exponentPart? rest
    return (numberValue negative whole decimals exponent written, rest)

/-- The object with these fields; a field without a readable name makes it unreadable. -/
def objectOf (fields : List (Option String × Json)) : Json :=
  match fields.mapM fun (name, value) => name.map (·, value) with
  | some fields => .object fields
  | none => .unreadable

mutual

/-- A value at the front of a text, and what follows it. -/
def value? (fuel : Nat) (cs : List Char) : Option (Json × List Char) :=
  match fuel with
  | 0 => none
  | fuel + 1 =>
    match skipSpaces cs with
    | 'n' :: 'u' :: 'l' :: 'l' :: rest => some (.null, rest)
    | 't' :: 'r' :: 'u' :: 'e' :: rest => some (.bool true, rest)
    | 'f' :: 'a' :: 'l' :: 's' :: 'e' :: rest => some (.bool false, rest)
    | '"' :: rest => do
      let (content, rest) ← text? rest
      return (content.elim .unreadable .text, rest)
    | '[' :: rest =>
      match skipSpaces rest with
      | ']' :: rest => some (.array [], rest)
      | rest => do
        let (items, rest) ← items? fuel rest
        return (.array items, rest)
    | '\x7b' :: rest =>
      match skipSpaces rest with
      | '\x7d' :: rest => some (.object [], rest)
      | rest => do
        let (fields, rest) ← fields? fuel rest
        return (objectOf fields, rest)
    | cs => number? cs

/-- The items of an array up to its closing bracket; there is at least one. -/
def items? (fuel : Nat) (cs : List Char) : Option (List Json × List Char) :=
  match fuel with
  | 0 => none
  | fuel + 1 => do
    let (item, rest) ← value? fuel cs
    match skipSpaces rest with
    | ']' :: rest => return ([item], rest)
    | ',' :: rest =>
      let (items, rest) ← items? fuel rest
      return (item :: items, rest)
    | _ => none

/-- The fields of an object up to its closing brace; there is at least one. -/
def fields? (fuel : Nat) (cs : List Char) : Option (List (Option String × Json) × List Char) :=
  match fuel with
  | 0 => none
  | fuel + 1 =>
    match skipSpaces cs with
    | '"' :: rest => do
      let (name, rest) ← text? rest
      match skipSpaces rest with
      | ':' :: rest =>
        let (value, rest) ← value? fuel rest
        match skipSpaces rest with
        | '\x7d' :: rest => return ([(name, value)], rest)
        | ',' :: rest =>
          let (fields, rest) ← fields? fuel rest
          return ((name, value) :: fields, rest)
        | _ => none
      | _ => none
    | _ => none

end

end KitchenScript.Json.Reader

namespace KitchenScript.Json

/-- The value of a whole text. -/
def read? (text : String) : Option Json := do
  let cs := text.toList
  let (value, rest) ← Reader.value? (cs.length + 1) cs
  if (Reader.skipSpaces rest).isEmpty then some value else none

end KitchenScript.Json
