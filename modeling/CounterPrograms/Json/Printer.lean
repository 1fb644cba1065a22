import CounterPrograms.Json.Basic
import CounterPrograms.Numeral
import CounterPrograms.Text.Quoted

/-!
# Writing JSON text

A value on one line of ASCII without white space.  In strings quotes and backslashes are escaped,
and every character that is not printable ASCII is written by the code units of UTF-16.
-/

namespace CounterPrograms

namespace Json

/-- A code unit of UTF-16 inside a string. -/
def escapeUnit (unit : Nat) : List Char :=
  '\\' :: 'u' :: (Quoted.hexadecimal 4 unit).toList

/-- How a character is written inside a string. -/
def escape (c : Char) : List Char :=
  let n := c.toNat
  if c = '"' ∨ c = '\\' then ['\\', c]
  else if 0x20 ≤ n ∧ n < 0x7F then [c]
  else if n < 0x10000 then escapeUnit n
  else escapeUnit (0xD800 + (n - 0x10000) / 0x400) ++ escapeUnit (0xDC00 + (n - 0x10000) % 0x400)

/-- A string between quotes. -/
def renderString (s : String) : List Char :=
  '"' :: s.toList.flatMap escape ++ ['"']

/-- Pieces of text with a comma between neighbours. -/
def separated : List (List Char) → List Char
  | [] => []
  | [p] => p
  | p :: ps => p ++ ',' :: separated ps

/-- A decimal number: its digits and the power of ten. -/
def renderDecimal (d : Decimal) : List Char :=
  (if d.negative then ['-'] else []) ++ Numeral.digits d.digits ++
    'e' :: (Numeral.text d.exponent).toList

mutual

/-- The characters of a value. -/
def renderChars : Json → List Char
  | null => "null".toList
  | bool b => (if b then "true" else "false").toList
  | int n => (Numeral.text n).toList
  | decimal d => renderDecimal d
  | nonFinite x => x.spelling.toList
  | str s => renderString s
  | arr elements => '[' :: separated (renderElements elements) ++ [']']
  | obj fields => '\x7b' :: separated (renderFields fields) ++ ['\x7d']
termination_by structural j => j

/-- The characters of each element. -/
def renderElements : List Json → List (List Char)
  | [] => []
  | j :: rest => renderChars j :: renderElements rest
termination_by structural js => js

/-- The characters of each field. -/
def renderFields : List (String × Json) → List (List Char)
  | [] => []
  | (name, j) :: rest => (renderString name ++ ':' :: renderChars j) :: renderFields rest
termination_by structural fs => fs

end

/-- The text of a value. -/
def render (j : Json) : String :=
  String.ofList j.renderChars

end Json

end CounterPrograms
