import CounterPrograms.Numeral
import CounterPrograms.Text.Blank

/-!
# Integers as people type them

An integer may have white space around it and a sign before it; its digits may be those of any
script, and single underscores may stand between them.
-/

namespace CounterPrograms

namespace Numeral

/-- A text without its single underscores, or `none` if one of them does not stand between two other
characters.  `before` says whether there is such a character before the text. -/
def withoutUnderscores? : Bool → List Char → Option (List Char)
  | before, [] => if before then some [] else none
  | before, '_' :: rest => if before then withoutUnderscores? false rest else none
  | _, c :: rest => (withoutUnderscores? true rest).map (c :: ·)

/-- Whether a sign is a minus sign, and the text after the sign if there is one. -/
def splitSign : List Char → Bool × List Char
  | '-' :: rest => (true, rest)
  | '+' :: rest => (false, rest)
  | text => (false, text)

/-- Reads an integer. -/
def readInteger? (text : List Char) : Option Int := do
  let (negative, body) := splitSign (trimWhiteSpace text)
  let digits ← plainDigits? (← withoutUnderscores? false body)
  match read digits with
  | .ok n => return if negative then -n else n
  | .error _ => none

end Numeral

end CounterPrograms
