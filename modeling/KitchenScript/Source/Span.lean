/-!
# Positions and spans

A position is a line and a column of a text, both counted from one and columns in characters.  A
span runs from the position of a first character to the position of a last one.
-/

namespace KitchenScript

/-- Lines and columns are natural numbers.  Counters of 32 bits agree with them on every text of
fewer than `2 ^ 32 - 1` characters. -/
structure Position where
  line : Nat
  column : Nat
deriving DecidableEq

namespace Position

/-- Line first, then column. -/
def isUpTo (p q : Position) : Bool :=
  p.line < q.line || (p.line == q.line && p.column ≤ q.column)

instance : LE Position where
  le p q := p.isUpTo q = true

instance (p q : Position) : Decidable (p ≤ q) :=
  inferInstanceAs (Decidable (p.isUpTo q = true))

def start : Position :=
  ⟨1, 1⟩

def earlier (p q : Position) : Position :=
  if p ≤ q then p else q

def later (p q : Position) : Position :=
  if q ≤ p then p else q

def render (p : Position) : String :=
  s!"{p.line}:{p.column}"

end Position

structure Span where
  first : Position
  last : Position
deriving DecidableEq

namespace Span

/-- The span of a single position. -/
def point (p : Position) : Span :=
  ⟨p, p⟩

/-- The least span that covers both. -/
def merge (a b : Span) : Span :=
  ⟨a.first.earlier b.first, a.last.later b.last⟩

/-- A span is shown by where it starts. -/
def render (s : Span) : String :=
  s.first.render

end Span

end KitchenScript
