import CounterPrograms.Numeral
import CounterPrograms.Text.Quoted

/-!
# Bindings on the command line

An initial value is given as `NAME=DIGITS`; one minus sign before the name is ignored.  The name is
what stands before the first equals sign.  The value must look like digits, which includes
characters that show a digit outside positional notation; such a value is found out only when its
number is asked for.
-/

namespace CounterPrograms

/-- Why an argument is no binding. -/
inductive BindingError
  /-- The argument does not have the form of a binding. -/
  | malformed (argument : String)
  /-- The value looks like digits, but does not denote a number. -/
  | noNumber (value : String)
  /-- The value has too many digits. -/
  | numeral (error : NumeralError)
deriving DecidableEq, Repr

namespace BindingError

/-- The greatest length of a quoted value in a message. -/
def shownLength : Nat := 200

/-- The message for an argument that is no binding. -/
def message : BindingError → String
  | malformed argument =>
    "valor inicial inválido: '" ++ argument ++ "' (use NOME=NUMERO)"
  | noNumber value =>
    "invalid literal for int() with base 10: " ++
      String.ofList ((quoted value).toList.take shownLength)
  | numeral e => e.message

end BindingError

namespace Binding

/-- The number that a text of characters showing digits denotes.  The decimal digits at its
beginning are counted first. -/
def readValue (value : List Char) : Except BindingError Nat :=
  let run := value.takeWhile isDecimalDigit
  if Numeral.limit < run.length then .error (.numeral (.tooManyDigits run.length))
  else
    match Numeral.plainDigits? value with
    | some digits => (Numeral.read digits).mapError .numeral
    | none => .error (.noNumber (String.ofList value))

/-- Reads a binding. -/
def read (argument : String) : Except BindingError (String × Nat) :=
  let text :=
    match argument.toList with
    | '-' :: rest => rest
    | text => text
  let name := text.takeWhile (· ≠ '=')
  match text.dropWhile (· ≠ '=') with
  | [] => .error (.malformed argument)
  | _ :: value =>
    if name.isEmpty || value.isEmpty || !value.all showsDigit then .error (.malformed argument)
    else do
      let n ← readValue value
      return (String.ofList name, n)

end Binding

end CounterPrograms
