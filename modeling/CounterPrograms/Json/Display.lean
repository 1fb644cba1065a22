import CounterPrograms.Decimal.Binary64
import CounterPrograms.Json.Basic
import CounterPrograms.Numeral
import CounterPrograms.Text.Quoted

/-!
# Values in messages

How a message shows a value that was not acceptable.  Texts are quoted, the constants are written
`True`, `False` and `None`, arrays and objects list what they hold between brackets and braces, and
a decimal is shown as the shortest decimal that rounds to the same 64-bit binary number.
-/

namespace CounterPrograms

namespace Json

/-- Decimals from this order on, and up to `lastPositional`, are shown without an exponent. -/
def firstPositional : Int := -3

/-- The last order that is shown without an exponent. -/
def lastPositional : Int := 16

/-- An exponent: its sign, always written, and at least two digits. -/
def exponentText (e : Int) : String :=
  let digits := Numeral.digits e.natAbs
  (if e < 0 then "e-" else "e+") ++
    String.ofList (List.replicate (2 - digits.length) '0' ++ digits)

/-- Text of a magnitude: with a point between digits if its order is neither too small nor too
large, otherwise with one digit before the point and an exponent. -/
def magnitudeText (d : Decimal) : String :=
  let digits := Numeral.digits d.digits
  if d.digits = 0 then "0.0"
  else if firstPositional ≤ d.order ∧ d.order ≤ lastPositional then
    if d.order ≤ 0 then
      String.ofList ('0' :: '.' :: List.replicate (-d.order).toNat '0' ++ digits)
    else
      let whole := d.order.toNat
      let fraction := digits.drop whole
      String.ofList (digits.take whole ++ List.replicate (whole - digits.length) '0' ++
        '.' :: if fraction.isEmpty then ['0'] else fraction)
  else
    String.ofList (digits.take 1 ++ if digits.length ≤ 1 then [] else '.' :: digits.drop 1) ++
      exponentText (d.order - 1)

/-- Text of a number of the 64-bit binary format. -/
def binary64Text : Binary64 → String
  | .infinite negative => if negative then "-inf" else "inf"
  | .finite negative significand exponent =>
    (if negative then "-" else "") ++ magnitudeText (Binary64.shortest significand exponent)

/-- Text of a number without digits. -/
def nonFiniteText : NonFinite → String
  | .infinity => "inf"
  | .negativeInfinity => "-inf"
  | .notANumber => "nan"

mutual

/-- How a message shows a value. -/
def display : Json → String
  | null => "None"
  | bool b => if b then "True" else "False"
  | int n => Numeral.text n
  | decimal d => binary64Text (Binary64.nearest d)
  | nonFinite x => nonFiniteText x
  | str s => quoted s
  | arr elements => "[" ++ ", ".intercalate (displayElements elements) ++ "]"
  | obj fields => "\x7b" ++ ", ".intercalate (displayFields fields) ++ "\x7d"
termination_by structural j => j

/-- How a message shows the elements of an array. -/
def displayElements : List Json → List String
  | [] => []
  | j :: rest => display j :: displayElements rest
termination_by structural js => js

/-- How a message shows the fields of an object. -/
def displayFields : List (String × Json) → List String
  | [] => []
  | (name, j) :: rest => (quoted name ++ ": " ++ display j) :: displayFields rest
termination_by structural fs => fs

end

/-- A value as plain text: a text as it is, everything else as in messages. -/
def plain : Json → String
  | str s => s
  | j => display j

end Json

end CounterPrograms
