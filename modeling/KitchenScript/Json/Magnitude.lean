/-!
# The size of written numbers

A number that is not a whole number of 64 bits is taken for a double, and a literal whose double
would be infinite denotes nothing.  The double is reached in steps: the leading digits that fit in
64 bits are kept, the places of the others only raise the exponent, and then the kept digits, the
power of ten and their product are each rounded.  A literal close to the largest double may
therefore be refused or accepted by how it is written.
-/

namespace KitchenScript.Json

/-- One more than the largest number of 64 bits. -/
def wordBound : Nat := UInt64.size

/-- The nearest number with 53 binary digits before its zeros; of two as near, the one whose last
digit is even. -/
def roundToDouble (n : Nat) : Nat :=
  let unit := Nat.pow 2 (n.log2 + 1 - 53)
  let below := n / unit
  let rest := 2 * (n % unit)
  if unit < rest ∨ (rest = unit ∧ below % 2 = 1) then (below + 1) * unit else below * unit

/-- From here on the nearest double is infinite: half a unit above the largest one. -/
def doubleBound : Nat := Nat.pow 2 1024 - Nat.pow 2 970

/-- The decimal digits of a literal as far as they are kept, and the power of ten that scales them. -/
structure Scaled where
  digits : Nat
  exponent : Int
deriving DecidableEq

namespace Scaled

/-- Append digits to those kept, up to the first that does not fit in 64 bits, and count them. -/
def keep (kept : Nat) : List Char → Nat × Nat
  | [] => (kept, 0)
  | c :: rest =>
    let longer := kept * 10 + (c.toNat - '0'.toNat)
    if longer < wordBound then
      let (kept, count) := keep longer rest
      (kept, count + 1)
    else
      (kept, 0)

/-- The number with these digits before and after the point, and this exponent.  A digit before the
point that is not kept raises the exponent, one after the point that is kept lowers it. -/
def ofLiteral (whole decimals : List Char) (exponent : Int) : Scaled :=
  let (kept, before) := keep 0 whole
  let (kept, after) := keep kept decimals
  ⟨kept, exponent + (whole.length - before : Nat) - after⟩

/-- Is there a finite double for the number?  A power of ten above 10^308 has none itself. -/
def isFinite (s : Scaled) : Bool :=
  s.digits == 0 || s.exponent < 0
    || (s.exponent ≤ 308
      && roundToDouble s.digits * roundToDouble (Nat.pow 10 s.exponent.toNat) < doubleBound)

end Scaled

end KitchenScript.Json
