import CounterPrograms.Json.Basic

/-!
# Reading JSON text

A reader over the list of characters.  Every production returns its value and the characters left;
the nesting of values is bounded by the length of the text, which is passed on as fuel.  Numbers
without digits are admitted under their usual names.
-/

namespace CounterPrograms

namespace Json.Parser

/-- Drops the white space of JSON. -/
def skip : List Char → List Char
  | c :: rest => if c = ' ' ∨ c = '\t' ∨ c = '\n' ∨ c = '\r' then skip rest else c :: rest
  | [] => []

/-- The value of a hexadecimal digit. -/
def hexDigit? (c : Char) : Option Nat :=
  if c.isDigit then some (c.toNat - '0'.toNat)
  else if 'a' ≤ c ∧ c ≤ 'f' then some (c.toNat - 'a'.toNat + 10)
  else if 'A' ≤ c ∧ c ≤ 'F' then some (c.toNat - 'A'.toNat + 10)
  else none

/-- The number that four hexadecimal digits denote. -/
def unit? (a b c d : Char) : Option Nat := do
  return (((← hexDigit? a) * 16 + (← hexDigit? b)) * 16 + (← hexDigit? c)) * 16 + (← hexDigit? d)

/-- The character of a code point, if it is one. -/
def char? (n : Nat) : Option Char :=
  if n.isValidChar then some (Char.ofNat n) else none

/-- The character that a pair of surrogates denotes. -/
def surrogates? (high low : Nat) : Option Char :=
  if 0xD800 ≤ high ∧ high < 0xDC00 ∧ 0xDC00 ≤ low ∧ low < 0xE000 then
    char? (0x10000 + (high - 0xD800) * 0x400 + (low - 0xDC00))
  else none

/-- The character that a backslash and `c` denote. -/
def escaped? : Char → Option Char
  | '"' => some '"'
  | '\\' => some '\\'
  | '/' => some '/'
  | 'b' => some '\x08'
  | 'f' => some '\x0c'
  | 'n' => some '\n'
  | 'r' => some '\r'
  | 't' => some '\t'
  | _ => none

/-- The rest of a string whose opening quote and first characters, `read` in reverse, are
consumed. -/
def string (read : List Char) : List Char → Option (String × List Char)
  | '"' :: rest => some (String.ofList read.reverse, rest)
  | '\\' :: 'u' :: a :: b :: c :: d :: '\\' :: 'u' :: e :: f :: g :: h :: rest =>
    match unit? a b c d, unit? e f g h with
    | some high, some low =>
      match surrogates? high low, char? high, char? low with
      | some x, _, _ => string (x :: read) rest
      | none, some x, some y => string (y :: x :: read) rest
      | none, some x, none => string (x :: read) ('\\' :: 'u' :: e :: f :: g :: h :: rest)
      | none, none, _ => none
    | _, _ => none
  | '\\' :: 'u' :: a :: b :: c :: d :: rest =>
    match (unit? a b c d).bind char? with
    | some x => string (x :: read) rest
    | none => none
  | '\\' :: c :: rest =>
    match escaped? c with
    | some x => string (x :: read) rest
    | none => none
  | c :: rest => if c.toNat < 0x20 then none else string (c :: read) rest
  | [] => none
termination_by text => text.length

/-- A run of at least one digit. -/
def digits? (text : List Char) : Option (List Char × List Char) :=
  let run := text.takeWhile Char.isDigit
  if run.isEmpty then none else some (run, text.dropWhile Char.isDigit)

/-- The fraction of a number, without its point; empty if there is none. -/
def fraction? : List Char → Option (List Char × List Char)
  | '.' :: rest => digits? rest
  | text => some ([], text)

/-- The exponent of a number, if it has one. -/
def exponent? : List Char → Option (Option Int × List Char)
  | c :: text =>
    if c = 'e' ∨ c = 'E' then
      let (negative, text) := match text with
        | '-' :: rest => (true, rest)
        | '+' :: rest => (false, rest)
        | _ => (false, text)
      (digits? text).map fun (run, rest) =>
        let n : Int := Nat.ofDigitChars 10 run 0
        (some (if negative then -n else n), rest)
    else some (none, c :: text)
  | [] => some (none, [])

/-- A number. -/
def number (text : List Char) : Option (Json × List Char) := do
  let (negative, text) := match text with
    | '-' :: rest => (true, rest)
    | _ => (false, text)
  let (whole, text) ← digits? text
  if 1 < whole.length ∧ whole.head? = some '0' then none
  else
    let (fraction, text) ← fraction? text
    let (exponent, text) ← exponent? text
    let digits := Nat.ofDigitChars 10 (whole ++ fraction) 0
    match fraction, exponent with
    | [], none => return (.int (if negative then -(digits : Int) else digits), text)
    | _, _ => return (.decimal ⟨negative, digits, exponent.getD 0 - fraction.length⟩, text)

/-- Removes `word` from the front of `text`. -/
def word? (word : String) (text : List Char) : Option (List Char) :=
  if word.toList.isPrefixOf text then some (text.drop word.length) else none

/-- A number without digits. -/
def nonFinite? (text : List Char) : Option (Json × List Char) :=
  [NonFinite.infinity, .negativeInfinity, .notANumber].findSome? fun x =>
    (word? x.spelling text).map fun rest => (.nonFinite x, rest)

mutual

/-- A value. -/
def value : Nat → List Char → Option (Json × List Char)
  | 0, _ => none
  | fuel + 1, text =>
    match skip text with
    | '"' :: rest => (string [] rest).map fun (s, rest) => (.str s, rest)
    | '[' :: rest =>
      match skip rest with
      | ']' :: rest => some (.arr [], rest)
      | rest => (elements fuel rest).map fun (es, rest) => (.arr es, rest)
    | '\x7b' :: rest =>
      match skip rest with
      | '\x7d' :: rest => some (.obj [], rest)
      | rest => (fields fuel rest).map fun (fs, rest) => (.obj (Bindings.ofPairs fs), rest)
    | 'n' :: rest => (word? "ull" rest).map fun rest => (.null, rest)
    | 't' :: rest => (word? "rue" rest).map fun rest => (.bool true, rest)
    | 'f' :: rest => (word? "alse" rest).map fun rest => (.bool false, rest)
    | text => (nonFinite? text).or (number text)

/-- The elements of an array, at least one, with the closing bracket. -/
def elements : Nat → List Char → Option (List Json × List Char)
  | 0, _ => none
  | fuel + 1, text => do
    let (first, rest) ← value fuel text
    match skip rest with
    | ',' :: rest => do
      let (others, rest) ← elements fuel rest
      return (first :: others, rest)
    | ']' :: rest => return ([first], rest)
    | _ => none

/-- The fields of an object, at least one, with the closing brace. -/
def fields : Nat → List Char → Option (List (String × Json) × List Char)
  | 0, _ => none
  | fuel + 1, text =>
    match skip text with
    | '"' :: rest => do
      let (name, rest) ← string [] rest
      match skip rest with
      | ':' :: rest => do
        let (v, rest) ← value fuel rest
        match skip rest with
        | ',' :: rest => do
          let (others, rest) ← fields fuel rest
          return ((name, v) :: others, rest)
        | '\x7d' :: rest => return ([(name, v)], rest)
        | _ => none
      | _ => none
    | _ => none

end

end Json.Parser

namespace Json

/-- The value that a text denotes, if it is JSON and nothing follows the value. -/
def parse? (text : String) : Option Json :=
  let chars := text.toList
  match Parser.value (chars.length + 1) chars with
  | some (v, rest) => if (Parser.skip rest).isEmpty then some v else none
  | none => none

end Json

end CounterPrograms
