import CounterPrograms.CommandLine.Invocation
import CounterPrograms.Compile.Between
import CounterPrograms.Labels
import CounterPrograms.Program.Parser
import CounterPrograms.Program.Printer
import CounterPrograms.Run.Evaluate
import CounterPrograms.Text.Utf8

/-!
# Running the command `lwg`

What the command writes and how it exits.  The file is not read here: the command first says which
file it needs (`Start`), and goes on with whatever came of reading it (`finish`).
-/

namespace CounterPrograms

namespace CommandLine

/-- What came of reading a file: its bytes, or why the system could not open it. -/
inductive FileContents
  | bytes (data : List UInt8)
  | unreadable (reason : String)
deriving DecidableEq, Repr

/-- What a command has written, and its exit code. -/
structure Report where
  exit : Nat
  output : String
  errors : String
deriving DecidableEq, Repr

/-- Errors that the command does not handle. -/
inductive Fault
  /-- A binding among the arguments left over denotes no number. -/
  | binding (error : BindingError)
  /-- The place for the file was left with nothing. -/
  | noFile
  /-- A final value has too long a numeral. -/
  | numeral (error : NumeralError)
deriving DecidableEq, Repr

namespace Fault

/-- The message of an error that the command does not handle. -/
def message : Fault → String
  | binding e => e.message
  | noFile => "'list' object has no attribute 'read_text'"
  | numeral e => e.message

end Fault

/-- How a command ends. -/
inductive Ending
  /-- The arguments settle it: wrong usage or help. -/
  | exit (code : Nat)
  /-- The command has done what it could. -/
  | report (report : Report)
  /-- An error stops the command. -/
  | fault (fault : Fault)
deriving DecidableEq, Repr

/-- How a command begins. -/
inductive Start
  /-- It ends at once. -/
  | ended (ending : Ending)
  /-- It needs the file of the invocation, at the given path. -/
  | reading (invocation : Invocation) (path : String)
deriving DecidableEq, Repr

/-- Ends with an error message after the given output. -/
def failed (output message : String) : Ending :=
  .report ⟨1, output, "error: " ++ message ++ "\n"⟩

/-- Whether an invocation asks for languages that do not compile to each other. -/
def unsupported? (i : Invocation) : Option String :=
  match i.target with
  | some t =>
    if t = i.language ∨ i.language.compilesTo t then none
    else some ("tradução não suportada: " ++ i.language.name ++ " -> " ++ t.name)
  | none => none

/-- Reads the arguments.  Languages that do not compile to each other are refused before the file is
read, and a path that holds a null character is no path at all. -/
def start (arguments : List String) : Start :=
  match Invocation.ofArguments arguments with
  | .error .usage => .ended (.exit 2)
  | .error .help => .ended (.exit 0)
  | .error (.fault e) => .ended (.fault (.binding e))
  | .ok i =>
    match unsupported? i, i.file with
    | some message, _ => .ended (failed "" message)
    | none, none => .ended (.fault .noFile)
    | none, some path =>
      if path.toList.contains '\x00' then .ended (failed "" "embedded null byte")
      else .reading i path

/-- The message for bytes that are no UTF-8. -/
def utf8Message (e : Utf8.Error) : String :=
  let place :=
    if e.length = 1 then
      "byte 0x" ++ Quoted.hexadecimal 2 e.byte.toNat ++ " in position " ++ Numeral.text e.offset
    else
      "bytes in position " ++ Numeral.text e.offset ++ "-" ++
        Numeral.text ((e.offset + e.length - 1 : Nat))
  "'utf-8' codec can't decode " ++ place ++ ": " ++ e.fault.text

/-- The text of a file. -/
def sourceText (data : List UInt8) : Except String String :=
  match Utf8.decode data with
  | .ok chars => .ok (String.ofList (normalizeNewlines chars))
  | .error e => .error (utf8Message e)

/-- The program that an invocation runs, and the language in which it does. -/
def prepare (i : Invocation) (inputs : Inputs) (source : String) :
    Except String (Language × Program) := do
  let p ← (Program.parse i.language source).mapError SourceError.message
  let problems := if i.checkLabels ∧ i.language = .goto then Labels.problems p.instructions else []
  if problems ≠ [] then throw (Labels.message problems)
  match i.target with
  | some t =>
    if t = i.language then return (i.language, p)
    else
      let q ← (p.compile i.language t inputs.names).mapError CompileError.message
      return (t, q)
  | none => return (i.language, p)

/-- What is written when the program is asked for: its language in capitals and its text. -/
def shown (language : Language) (p : Program) : Except String String := do
  let text ← (p.print Program.defaultIndent).mapError PrintError.message
  return "# " ++ language.title ++ "\n" ++ text ++ "\n"

/-- The lines with the final values of the variables. -/
def valueLines (s : Store) : Except NumeralError String := do
  let lines ← s.entries.mapM fun e => do
    let value ← Numeral.writeInt e.2
    return e.1 ++ " = " ++ value ++ "\n"
  return String.join lines

/-- Goes on when the file of the invocation, at the given path, has been read. -/
def finish (i : Invocation) (path : String) (contents : FileContents) : Ending :=
  let inputs := Inputs.ofNaturals i.bindings
  match contents with
  | .unreadable reason => failed "" ("'" ++ path ++ "' não pôde ser aberto: " ++ reason)
  | .bytes data =>
    match (do prepare i inputs (← sourceText data)) with
    | .error message => failed "" message
    | .ok (language, p) =>
      match if i.showProgram then shown language p else .ok "" with
      | .error message => failed "" message
      | .ok output =>
        match p.runIn language inputs with
        | .error e => failed output e.message
        | .ok s =>
          match valueLines s with
          | .ok lines => .report ⟨0, output ++ lines, ""⟩
          | .error e => .fault (.numeral e)

end CommandLine

end CounterPrograms
