/-!
# Decimal numbers

Numbers as decimal notation gives them: a sign, a whole number of digits and a power of ten.  The
value is exact, so no precision is lost before somebody asks for it.
-/

namespace CounterPrograms

/-- The number `digits * 10 ^ exponent`, or its negative.  Zero too has a sign. -/
structure Decimal where
  negative : Bool
  digits : Nat
  exponent : Int
deriving DecidableEq, Repr

namespace Decimal

/-- The absolute value. -/
def magnitude (d : Decimal) : Rat :=
  d.digits * (10 : Rat) ^ d.exponent

/-- The power of ten just above the number: a nonzero magnitude lies between
`10 ^ (order - 1)` and `10 ^ order`. -/
def order (d : Decimal) : Int :=
  d.exponent + (Nat.toDigits 10 d.digits).length

/-- The same number without zeros at the end of its digits, of which at most `fuel` are removed. -/
def trim : Nat → Decimal → Decimal
  | 0, d => d
  | fuel + 1, d =>
    if d.digits ≠ 0 ∧ d.digits % 10 = 0 then
      trim fuel { d with digits := d.digits / 10, exponent := d.exponent + 1 }
    else d

end Decimal

end CounterPrograms
