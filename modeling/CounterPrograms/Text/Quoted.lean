import CounterPrograms.Text.Printable

/-!
# Quoted text

How a message shows a text so that its ends and its invisible characters can be seen.  The text
stands between single quotes, or between double quotes if it holds a single quote and no double
one.  The enclosing quote and the backslash are escaped by a backslash, the tab, line feed and
carriage return by their letters, and every other unprintable character by its code point in
hexadecimal: two digits after `x`, four after `u`, eight after `U`, whichever is the first to fit.
-/

namespace CounterPrograms

namespace Quoted

/-- `n` in lower-case hexadecimal, filled up with zeros to `width` digits. -/
def hexadecimal (width n : Nat) : String :=
  let digits := Nat.toDigits 16 n
  String.ofList (List.replicate (width - digits.length) '0' ++ digits)

/-- The quote that encloses `s`. -/
def mark (s : List Char) : Char :=
  if s.contains '\'' && !s.contains '"' then '"' else '\''

/-- How the character `c` is shown between two marks `q`. -/
def escape (q c : Char) : String :=
  if c = q ∨ c = '\\' then String.ofList ['\\', c]
  else if c = '\t' then "\\t"
  else if c = '\n' then "\\n"
  else if c = '\r' then "\\r"
  else if isPrintable c then c.toString
  else if c.toNat < 0x100 then "\\x" ++ hexadecimal 2 c.toNat
  else if c.toNat < 0x10000 then "\\u" ++ hexadecimal 4 c.toNat
  else "\\U" ++ hexadecimal 8 c.toNat

end Quoted

/-- The text `s` between quotes, with everything escaped that would not show. -/
def quoted (s : String) : String :=
  let q := Quoted.mark s.toList
  q.toString ++ String.join (s.toList.map (Quoted.escape q)) ++ q.toString

example : quoted "it's" = "\"it's\"" := by decide +kernel
example : quoted "a\x00b\n" = "'a\\x00b\\n'" := by decide +kernel

end CounterPrograms
