import CounterPrograms.Decimal.Binary64
import CounterPrograms.Json.Basic
import CounterPrograms.Language
import CounterPrograms.Numeral
import CounterPrograms.Text.Blank

/-!
# Fields of a request

What the service accepts in the fields of a request.  Numbers and truth values are read leniently:
a whole decimal or a numeral in a string is as good as an integer.
-/

namespace CounterPrograms

namespace Service

/-! ### Natural numbers -/

/-- The decimals at and above this number are not read as integers. -/
def decimalBound : Nat := Nat.pow 2 63

/-- The natural number that a number of the 64-bit format is, if it is one and not too large. -/
def wholeNumber? : Binary64 → Option Nat
  | .infinite _ => none
  | .finite negative significand exponent =>
    let scale := Nat.pow 2 exponent.natAbs
    let whole? :=
      if 0 ≤ exponent then some (significand * scale)
      else if significand % scale = 0 then some (significand / scale)
      else none
    whole?.filter fun n => n < decimalBound ∧ (negative → n = 0)

/-- A numeral without the zeros and underscores before its first other digit or the minus sign that
may stand there; of a numeral made of nothing else the last character remains, and so does a zero
before a point.  A text that does not begin with a digit is no numeral. -/
def withoutLeadingZeros? (s : List Char) : Option (List Char) :=
  match s with
  | '0' :: rest =>
    let skipped := rest.takeWhile fun c => c = '0' ∨ c = '_'
    match rest.dropWhile fun c => c = '0' ∨ c = '_' with
    | [] => some [(s.getLast?).getD '0']
    | '.' :: fraction => some ((('0' :: skipped).getLast?).getD '0' :: '.' :: fraction)
    | c :: digits => if c.isDigit ∨ c = '-' then some (c :: digits) else none
  | c :: _ => if c.isDigit then some s else none
  | [] => none

/-- A numeral without a fraction that consists of zeros.  A point alone is no fraction. -/
def withoutZeroFraction (s : List Char) : List Char :=
  match s.dropWhile (· ≠ '.') with
  | '.' :: fraction =>
    if !fraction.isEmpty && fraction.all (· = '0') then s.takeWhile (· ≠ '.') else s
  | _ => s

/-- Whether two underscores follow each other. -/
def hasDoubleUnderscore : List Char → Bool
  | '_' :: '_' :: _ => true
  | _ :: rest => hasDoubleUnderscore rest
  | [] => false

/-- A numeral without the single underscores inside it. -/
def withoutUnderscores (s : List Char) : List Char :=
  if s.head? = some '_' ∨ s.getLast? = some '_' ∨ hasDoubleUnderscore s then s
  else s.filter (· ≠ '_')

/-- The text of a numeral in its plainest form: without white space around it, plus sign, zeros
before it, zero fraction and underscores.  A minus sign remains before what it stands before. -/
def plainNumeral? (s : List Char) : Option (List Char) := do
  let s ←
    match trimWhiteSpace s with
    | '-' :: rest => (withoutLeadingZeros? rest).map ('-' :: ·)
    | '+' :: rest => withoutLeadingZeros? rest
    | s => withoutLeadingZeros? s
  return withoutUnderscores (withoutZeroFraction s)

/-- The natural number that a string denotes. -/
def naturalOfText? (s : String) : Option Nat := do
  let digits ← plainNumeral? s.toList
  match digits with
  | ['-', '0'] => some 0
  | _ =>
    if digits.isEmpty ∨ !digits.all Char.isDigit then none
    else (Numeral.read digits).toOption

/-- The natural number that a field denotes. -/
def natural? : Json → Option Nat
  | .int n => if 0 ≤ n then some n.toNat else none
  | .bool b => some b.toNat
  | .decimal d => wholeNumber? (Binary64.nearest d)
  | .str s => naturalOfText? s
  | _ => none

/-! ### Truth values -/

/-- The strings that mean yes, in lower case. -/
def affirmatives : List String := ["1", "t", "y", "on", "yes", "true"]

/-- The strings that mean no, in lower case. -/
def negatives : List String := ["0", "f", "n", "off", "no", "false"]

/-- The truth value that a number denotes. -/
def truthOfNumber? : Nat → Option Bool
  | 0 => some false
  | 1 => some true
  | _ => none

/-- The truth value that a field denotes. -/
def truth? : Json → Option Bool
  | .bool b => some b
  | .int n => if 0 ≤ n then truthOfNumber? n.toNat else none
  | .decimal d => (wholeNumber? (Binary64.nearest d)).bind truthOfNumber?
  | .str s =>
    let lower := String.ofList (s.toList.map Char.toLower)
    if lower ∈ affirmatives then some true
    else if lower ∈ negatives then some false
    else none
  | _ => none

/-! ### Fields -/

/-- What reading a part of a request gives: a value, or the parts at fault. -/
abbrev Checked (α : Type) : Type := Except (List Json) α

/-- Two parts together.  If both are at fault, the faults of both are told. -/
def Checked.both {α β : Type} : Checked α → Checked β → Checked (α × β)
  | .ok a, .ok b => .ok (a, b)
  | .ok _, .error faults => .error faults
  | .error faults, .ok _ => .error faults
  | .error faults, .error more => .error (faults ++ more)

/-- Reads a part, which is at fault itself if it cannot be read. -/
def checked {α : Type} (read : Json → Option α) (j : Json) : Checked α :=
  match read j with
  | some a => .ok a
  | none => .error [j]

/-- Reads a field.  If there is no such field, the whole body is at fault. -/
def required {α : Type} (read : Json → Option α) (body : Json) (name : String) : Checked α :=
  match body.field? name with
  | some j => checked read j
  | none => .error [body]

/-- The language in a field. -/
def language (body : Json) (name : String) : Checked Language :=
  required (fun j => j.str?.bind Language.ofName?) body name

/-- The text in a field. -/
def text (body : Json) (name : String) : Checked String :=
  required Json.str? body name

/-- Initial values by name.  Each one that is no natural number is at fault by itself. -/
def initialValues : List (String × Json) → Checked (List (String × Nat))
  | [] => .ok []
  | (name, j) :: rest =>
    ((checked natural? j).both (initialValues rest)).map fun (n, others) => (name, n) :: others

/-- The initial values in the field `inputs`; there are none if there is no such field. -/
def inputs (body : Json) : Checked (List (String × Nat)) :=
  match body.field? "inputs" with
  | none => .ok []
  | some (.obj fields) => initialValues fields
  | some j => .error [j]

/-- Whether the field `run` asks for a run; without such a field none is asked for. -/
def run (body : Json) : Checked Bool :=
  match body.field? "run" with
  | none => .ok false
  | some j => checked truth? j

end Service

end CounterPrograms
