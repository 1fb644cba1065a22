import CounterPrograms.Text.Digit

/-!
# Decimal numerals

Natural numbers as decimal text.  Both directions are limited: a numeral of more than
`Numeral.limit` digits is neither read nor written.  Reading counts every digit, leading zeros
included; a number can be written iff it is below `10 ^ Numeral.limit`.
-/

namespace CounterPrograms

/-- Why a numeral was not converted. -/
inductive NumeralError
  /-- The text to be read has `count` digits, more than the limit. -/
  | tooManyDigits (count : Nat)
  /-- The number to be written has more digits than the limit. -/
  | tooLarge
deriving DecidableEq, Repr

namespace Numeral

/-- The greatest number of digits of a numeral. -/
def limit : Nat := 4300

/-- The least number that is too large to be written. -/
def bound : Nat := Nat.pow 10 limit

/-- The value of a string of the digits `0` to `9`. -/
def value (digits : List Char) : Nat :=
  Nat.ofDigitChars 10 digits 0

/-- Reads a string of the digits `0` to `9`. -/
def read (digits : List Char) : Except NumeralError Nat :=
  if digits.length ≤ limit then .ok (value digits) else .error (.tooManyDigits digits.length)

/-- The digits `0` to `9` that stand for the decimal digits of `text`, or `none` if a character of
it is no decimal digit. -/
def plainDigits? (text : List Char) : Option (List Char) :=
  text.mapM fun c => (decimalDigit? c).map Nat.digitChar

/-- The shortest numeral of `n`. -/
def digits (n : Nat) : List Char :=
  Nat.toDigits 10 n

/-- Writes `n`. -/
def write (n : Nat) : Except NumeralError String :=
  if n < bound then .ok (String.ofList (digits n)) else .error .tooLarge

/-- The text of an integer of any size: the numeral of its magnitude, after a minus sign if it is
negative. -/
def text : Int → String
  | .ofNat n => String.ofList (digits n)
  | .negSucc n => "-" ++ String.ofList (digits (n + 1))

/-- Writes an integer. -/
def writeInt (n : Int) : Except NumeralError String :=
  if n.natAbs < bound then .ok (text n) else .error .tooLarge

end Numeral

namespace NumeralError

/-- The message of a conversion that the limit stopped. -/
def message : NumeralError → String
  | .tooManyDigits count =>
    "Exceeds the limit (" ++ Numeral.text Numeral.limit ++
      " digits) for integer string conversion: value has " ++ Numeral.text count ++
      " digits; use sys.set_int_max_str_digits() to increase the limit"
  | .tooLarge =>
    "Exceeds the limit (" ++ Numeral.text Numeral.limit ++
      " digits) for integer string conversion; " ++
      "use sys.set_int_max_str_digits() to increase the limit"

end NumeralError

end CounterPrograms
