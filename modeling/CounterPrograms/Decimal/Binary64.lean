import CounterPrograms.Decimal.Basic

/-!
# Binary floating point and its shortest decimals

The numbers of the 64-bit binary floating-point format, computed exactly: `Binary64.nearest` rounds
a decimal to the format, a half going to the even neighbour, and `Binary64.shortest` finds the
decimal with the fewest digits that rounds back to a given number, and of those the nearest.
-/

namespace CounterPrograms

/-- A number of the 64-bit binary format: `significand * 2 ^ exponent` with a sign, or an
infinity. -/
inductive Binary64
  | finite (negative : Bool) (significand : Nat) (exponent : Int)
  | infinite (negative : Bool)
deriving DecidableEq, Repr

namespace Binary64

/-- The number of bits of a full significand. -/
def precision : Nat := 53

/-- The least exponent, that of the numbers next to zero. -/
def minExponent : Int := -1074

/-- The greatest exponent. -/
def maxExponent : Int := 971

/-- The natural number nearest to `x ≥ 0`; of two equally near the even one. -/
def roundHalfEven (x : Rat) : Nat :=
  let below := x.floor.toNat
  let excess := x - below
  if excess < 1 / 2 then below
  else if 1 / 2 < excess then below + 1
  else below + below % 2

/-- The exponent of the greatest power of two that is at most `x > 0`. -/
def binaryOrder (x : Rat) : Int :=
  let guess := (Nat.log2 x.num.toNat : Int) - (Nat.log2 x.den : Int)
  if (2 : Rat) ^ guess ≤ x then guess else guess - 1

/-- The number of the format nearest to the magnitude `x`, with a sign. -/
def ofMagnitude (negative : Bool) (x : Rat) : Binary64 :=
  if x ≤ 0 then .finite negative 0 minExponent
  else
    let exponent := max (binaryOrder x - (precision - 1)) minExponent
    let significand := roundHalfEven (x / (2 : Rat) ^ exponent)
    let (significand, exponent) :=
      if significand = Nat.pow 2 precision then (Nat.pow 2 (precision - 1), exponent + 1)
      else (significand, exponent)
    if maxExponent < exponent then .infinite negative
    else .finite negative significand exponent

/-- The number of the format nearest to a decimal.  A decimal far outside the range of the format
is settled by its order alone. -/
def nearest (d : Decimal) : Binary64 :=
  if d.digits = 0 ∨ d.order < -400 then .finite d.negative 0 minExponent
  else if 400 < d.order then .infinite d.negative
  else ofMagnitude d.negative d.magnitude

/-- The exact value of a magnitude. -/
def value (significand : Nat) (exponent : Int) : Rat :=
  significand * (2 : Rat) ^ exponent

/-- Whether `x` rounds to `significand * 2 ^ exponent`: it lies at most halfway to either
neighbour, and exactly halfway only if the significand is even.  Below a power of two the
neighbours are twice as dense. -/
def roundsTo (significand : Nat) (exponent : Int) (x : Rat) : Bool :=
  let unit := (2 : Rat) ^ exponent
  let v := value significand exponent
  let low := if significand = Nat.pow 2 (precision - 1) ∧ minExponent < exponent then v - unit / 4
    else v - unit / 2
  let high := v + unit / 2
  if significand % 2 = 0 then low ≤ x ∧ x ≤ high else low < x ∧ x < high

/-- The exponent of the least power of ten above `v > 0`. -/
def decimalOrder (v : Rat) : Int :=
  if 1 ≤ v then (Nat.toDigits 10 v.floor.toNat).length
  else 1 - ((Nat.toDigits 10 ((v.inv.ceil - 1).toNat)).length : Int)

/-- A decimal of `count` digits that rounds to the given magnitude, the nearest one if there are
two.  Only the two multiples of the last place that enclose the value are tried, because if any
multiple rounds to it one of these does. -/
def withDigits? (significand : Nat) (exponent : Int) (count : Nat) : Option Decimal :=
  let v := value significand exponent
  let place := decimalOrder v - count
  let unit := (10 : Rat) ^ place
  let below := (v / unit).floor.toNat
  let fits (n : Nat) : Bool := roundsTo significand exponent (n * unit)
  match fits below, fits (below + 1) with
  | true, true => some ⟨false, roundHalfEven (v / unit), place⟩
  | true, false => some ⟨false, below, place⟩
  | false, true => some ⟨false, below + 1, place⟩
  | false, false => none

/-- The shortest decimal that rounds to the given magnitude; seventeen digits always suffice. -/
def shortest (significand : Nat) (exponent : Int) : Decimal :=
  if significand = 0 then ⟨false, 0, 0⟩
  else
    let found := (List.range' 1 17).findSome? (withDigits? significand exponent)
    (found.getD ⟨false, 0, 0⟩).trim 17

end Binary64

end CounterPrograms
