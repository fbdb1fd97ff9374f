/-!
# Blank characters

The characters with the Unicode property White_Space.  They end a run of characters that the
language has no meaning for, although the language itself skips only some of them between tokens.
-/

namespace KitchenScript.Text

/-- The code points of White_Space as closed ranges, in order. -/
def blankRanges : List (Nat × Nat) :=
  [(0x09, 0x0D), (0x20, 0x20), (0x85, 0x85), (0xA0, 0xA0), (0x1680, 0x1680), (0x2000, 0x200A),
    (0x2028, 0x2029), (0x202F, 0x202F), (0x205F, 0x205F), (0x3000, 0x3000)]

/-- Does one of the closed ranges hold the code point? -/
def inRanges (ranges : List (Nat × Nat)) (code : Nat) : Bool :=
  ranges.any fun (first, last) => first ≤ code && code ≤ last

def isBlank (c : Char) : Bool :=
  inRanges blankRanges c.toNat

end KitchenScript.Text
