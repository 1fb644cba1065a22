import CounterPrograms.Json.Basic
import CounterPrograms.Decimal.Binary64
import CounterPrograms.Numeral

/-!
# Values that cannot be written

A number of the 64-bit format is written only if it is finite, and an integer only if its numeral is
within the limit.  `Json.writeFault?` finds the first fault of a value, in the order in which its
parts would be written; a value without fault can be sent.
-/

namespace CounterPrograms

/-- Why a value cannot be written. -/
inductive WriteError
  /-- A number in it is infinite or no number. -/
  | nonFinite
  /-- A numeral in it would be too long. -/
  | numeral (error : NumeralError)
deriving DecidableEq, Repr

namespace WriteError

/-- The message of a value that cannot be written. -/
def message : WriteError → String
  | nonFinite => "Out of range float values are not JSON compliant"
  | numeral e => e.message

end WriteError

/-- Whether a number of the 64-bit format is finite. -/
def Binary64.isFinite : Binary64 → Bool
  | finite .. => true
  | infinite _ => false

namespace Json

mutual

/-- Why a value cannot be written, if it cannot. -/
def writeFault? : Json → Option WriteError
  | int n => if n.natAbs < Numeral.bound then none else some (.numeral .tooLarge)
  | decimal d => if (Binary64.nearest d).isFinite then none else some .nonFinite
  | nonFinite _ => some .nonFinite
  | arr elements => elementFault? elements
  | obj fields => fieldFault? fields
  | null | bool _ | str _ => none
termination_by structural j => j

/-- The first fault of the elements of an array. -/
def elementFault? : List Json → Option WriteError
  | [] => none
  | j :: rest => (writeFault? j).or (elementFault? rest)
termination_by structural js => js

/-- The first fault of the fields of an object. -/
def fieldFault? : List (String × Json) → Option WriteError
  | [] => none
  | (_, j) :: rest => (writeFault? j).or (fieldFault? rest)
termination_by structural fs => fs

end

end Json

end CounterPrograms
