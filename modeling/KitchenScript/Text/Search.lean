/-!
# Finding and replacing text

Recipes recognise a food by a phrase in its name and rename it by exchanging a phrase.  Both work
on lists of characters, from left to right; occurrences that are exchanged do not overlap.
-/

namespace KitchenScript.Text

/-- Does the phrase stand somewhere in the text? -/
def occurs (phrase : List Char) : List Char → Bool
  | [] => phrase.isEmpty
  | c :: cs => phrase.isPrefixOf (c :: cs) || occurs phrase cs

/-- Exchange loop: `covered` characters at the front belong to an occurrence already exchanged. -/
def exchangeFrom (phrase new : List Char) (covered : Nat) : List Char → List Char
  | [] => []
  | c :: cs =>
    match covered with
    | n + 1 => exchangeFrom phrase new n cs
    | 0 =>
      if phrase.isPrefixOf (c :: cs) then
        new ++ exchangeFrom phrase new (phrase.length - 1) cs
      else
        c :: exchangeFrom phrase new 0 cs

/-- Every occurrence of a non-empty phrase, taken from the left without overlap, becomes `new`. -/
def exchange (phrase new text : List Char) : List Char :=
  exchangeFrom phrase new 0 text

/-- `occurs` on strings. -/
def contains (text phrase : String) : Bool :=
  occurs phrase.toList text.toList

/-- `exchange` on strings. -/
def replace (text phrase new : String) : String :=
  String.ofList (exchange phrase.toList new.toList text.toList)

end KitchenScript.Text
