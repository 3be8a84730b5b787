import DeskCalculator.Binary64.Rounding

/-!
# The four operations

Sum, difference, product and quotient, each the exact result rounded once.
The operands are measured in units of `2 ^ -1074`, so a product of units has to
be divided by the number of units in one, and a quotient multiplied by it.
-/

namespace DeskCalculator.Binary64

/-- An exact sum of zero is negative only if both operands are. -/
def add : Binary64 → Binary64 → Binary64
  | .nan, _ => .nan
  | _, .nan => .nan
  | .infinite s, .infinite t => if s = t then .infinite s else .nan
  | .infinite s, .finite _ _ => .infinite s
  | .finite _ _, .infinite t => .infinite t
  | .finite s m, .finite t n =>
      ofUnits (s && t) ((finite s m).signedUnits + (finite t n).signedUnits)

/-- Subtracting is adding the opposite, also for zeros and infinities. -/
def sub (x y : Binary64) : Binary64 := add x (-y)

/-- Signs multiply; an infinity times zero has no value. -/
def mul : Binary64 → Binary64 → Binary64
  | .nan, _ => .nan
  | _, .nan => .nan
  | .infinite s, .infinite t => .infinite (s ^^ t)
  | .infinite s, .finite t n => if n = .zero then .nan else .infinite (s ^^ t)
  | .finite s m, .infinite t => if m = .zero then .nan else .infinite (s ^^ t)
  | .finite s m, .finite t n => ofRatio (s ^^ t) (m.units * n.units) unitsPerOne

/-- Signs multiply; a number other than zero divided by zero is infinite, zero by
    zero and infinity by infinity have no value. -/
def div : Binary64 → Binary64 → Binary64
  | .nan, _ => .nan
  | _, .nan => .nan
  | .infinite _, .infinite _ => .nan
  | .infinite s, .finite t _ => .infinite (s ^^ t)
  | .finite s _, .infinite t => zero (s ^^ t)
  | .finite s m, .finite t n =>
      if n = .zero then
        if m = .zero then .nan else .infinite (s ^^ t)
      else ofRatio (s ^^ t) (m.units * unitsPerOne) n.units

instance : Add Binary64 := ⟨add⟩
instance : Sub Binary64 := ⟨sub⟩
instance : Mul Binary64 := ⟨mul⟩
instance : Div Binary64 := ⟨div⟩

theorem sub_eq_add_neg (x y : Binary64) : x - y = x + -y := rfl

end DeskCalculator.Binary64
