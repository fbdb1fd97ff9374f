/-!
# Numbers

The numbers of the language are the integers from -2^63 up to 2^63 - 1.  Arithmetic is exact: an
operation gives the integer it should, or nothing when that integer is outside the range.
-/

namespace KitchenScript

structure Number where
  val : Int
  lower : -9223372036854775808 ≤ val
  upper : val < 9223372036854775808
deriving DecidableEq

namespace Number

/-- The number with this value, if the value is in range. -/
def ofInt? (n : Int) : Option Number :=
  if h : -9223372036854775808 ≤ n ∧ n < 9223372036854775808 then some ⟨n, h.1, h.2⟩ else none

theorem ofInt?_val (n : Number) : ofInt? n.val = some n := by
  simp [ofInt?, n.lower, n.upper]

theorem val_of_ofInt? {n : Int} {m : Number} (h : ofInt? n = some m) : m.val = n := by
  unfold ofInt? at h
  split at h
  · rw [Option.some.injEq] at h
    rw [← h]
  · simp at h

/-- A literal of the program text: a run of decimal digits, if its value is in range. -/
def ofDigits? (digits : List Char) : Option Number :=
  ofInt? (Nat.ofDigitChars 10 digits 0)

def zero : Number :=
  ⟨0, by decide, by decide⟩

/-- Minus one, which stands for "no limit" in a puzzle. -/
def minusOne : Number :=
  ⟨-1, by decide, by decide⟩

def add? (a b : Number) : Option Number :=
  ofInt? (a.val + b.val)

def sub? (a b : Number) : Option Number :=
  ofInt? (a.val - b.val)

def mul? (a b : Number) : Option Number :=
  ofInt? (a.val * b.val)

/-- The quotient rounded towards zero; the divisor is not zero. -/
def div? (a b : Number) : Option Number :=
  ofInt? (a.val.tdiv b.val)

/-- The remainder has the sign of the dividend.  It is refused together with the quotient, so the
least number has no remainder by minus one. -/
def rem? (a b : Number) : Option Number :=
  (a.div? b).bind fun _ => ofInt? (a.val.tmod b.val)

def neg? (a : Number) : Option Number :=
  ofInt? (-a.val)

/-- The opposite number; the least number, which has none, stays as it is. -/
def opposite (a : Number) : Number :=
  a.neg?.getD a

/-- A number that is not negative, as a count. -/
def toCount? (a : Number) : Option Nat :=
  if 0 ≤ a.val then some a.val.toNat else none

def render (a : Number) : String :=
  toString a.val

end Number

end KitchenScript
