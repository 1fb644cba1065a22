import CounterPrograms.Numeral
import CounterPrograms.Program.Basic

/-!
# From programs to text

Every statement stands on a line of its own, indented by its depth; the instructions of a GOTO
program are aligned behind the longest label.  Labels are separated by a colon and a blank, and an
empty label is left out.  A tree that is no program text has no printed form.
-/

namespace CounterPrograms

/-- Why a tree has no printed form. -/
inductive PrintError
  /-- A value of the given kind stands for a program. -/
  | invalidProgram (kind : String)
  /-- There is no expression where one belongs. -/
  | invalidExpression (found : Foreign)
  /-- There is no statement that can be written where one belongs. -/
  | invalidStatement (found : Foreign)
  /-- A number is too large to be written. -/
  | numeral (error : NumeralError)
deriving DecidableEq, Repr

/-- The message for a tree that has no printed form. -/
def PrintError.message : PrintError → String
  | invalidProgram kind => "Tipo de programa inválido: " ++ kind
  | invalidExpression found => found.message "Tipo de expressão inválido"
  | invalidStatement found => found.message "Comando inválido"
  | numeral e => e.message

/-- The text of an expression. -/
def Expr.print : Expr → Except PrintError String
  | num value => (Numeral.writeInt value).mapError .numeral
  | var name => .ok name
  | binary left op right => do
    let l ← left.print
    let r ← right.print
    return l ++ " " ++ op ++ " " ++ r
  | foreign found => .error (.invalidExpression found)

/-- The text of a condition. -/
def Condition.print (c : Condition) : Except PrintError String := do
  let l ← c.left.print
  let r ← c.right.print
  return l ++ " " ++ c.op ++ " " ++ r

/-- The text of a statement that holds no block. -/
def Stmt.printSimple : Stmt → Except PrintError String
  | assign target value => do
    let v ← value.print
    return target ++ " := " ++ v ++ ";"
  | goto target => return "GOTO " ++ target ++ ";"
  | ifGoto condition target => do
    let c ← condition.print
    return "IF " ++ c ++ " THEN GOTO " ++ target ++ ";"
  | halt => return "HALT;"
  | s => .error (.invalidStatement s.found)

/-- `depth` times the text `indent`. -/
def indentation (indent : String) (depth : Nat) : String :=
  String.join (List.replicate depth indent)

mutual

/-- The lines of a statement at the given depth. -/
def Stmt.lines (indent : String) (depth : Nat) : Stmt → Except PrintError (List String)
  | .loop counter body => do
    let inner ← Stmt.linesOfBlock indent (depth + 1) body
    let pad := indentation indent depth
    return (pad ++ "LOOP " ++ counter ++ " DO") :: inner ++ [pad ++ "END"]
  | .whileDo condition body => do
    let c ← condition.print
    let inner ← Stmt.linesOfBlock indent (depth + 1) body
    let pad := indentation indent depth
    return (pad ++ "WHILE " ++ c ++ " DO") :: inner ++ [pad ++ "END"]
  | .ifThen condition thenBody none => do
    let c ← condition.print
    let inner ← Stmt.linesOfBlock indent (depth + 1) thenBody
    let pad := indentation indent depth
    return (pad ++ "IF " ++ c ++ " THEN") :: inner ++ [pad ++ "END"]
  | .ifThen condition thenBody (some elseBody) => do
    let c ← condition.print
    let inner ← Stmt.linesOfBlock indent (depth + 1) thenBody
    let other ← Stmt.linesOfBlock indent (depth + 1) elseBody
    let pad := indentation indent depth
    return (pad ++ "IF " ++ c ++ " THEN") :: inner ++ (pad ++ "ELSE") :: other ++ [pad ++ "END"]
  | s => do
    let line ← s.printSimple
    return [indentation indent depth ++ line]
termination_by structural s => s

/-- The lines of a block at the given depth. -/
def Stmt.linesOfBlock (indent : String) (depth : Nat) :
    List Stmt → Except PrintError (List String)
  | [] => return []
  | s :: rest => do
    let first ← s.lines indent depth
    let others ← Stmt.linesOfBlock indent depth rest
    return first ++ others
termination_by structural ss => ss

end

namespace Instruction

/-- The label of an instruction as it is written before the statement. -/
def mark (i : Instruction) : String :=
  match i.label with
  | none => ""
  | some l => if l = "" then "" else l ++ ": "

/-- The width of the longest mark. -/
def markWidth (is : List Instruction) : Nat :=
  is.foldl (fun width i => max width i.mark.length) 0

/-- `s` filled up with blanks to `width` characters. -/
def padded (width : Nat) (s : String) : String :=
  s ++ String.ofList (List.replicate (width - s.length) ' ')

/-- The line of an instruction whose statement is indented by `width` characters. -/
def line (width : Nat) (i : Instruction) : Except PrintError String := do
  let s ← i.statement.printSimple
  return padded width i.mark ++ s

end Instruction

namespace Program

/-- The indentation that is used unless another one is asked for. -/
def defaultIndent : String := "    "

/-- The lines of a program. -/
def lines (indent : String) : Program → Except PrintError (List String)
  | loop statements | whileDo statements => Stmt.linesOfBlock indent 0 statements
  | goto instructions => instructions.mapM (Instruction.line (Instruction.markWidth instructions))

/-- The text of a program: its lines, each ended by a line feed. -/
def print (p : Program) (indent : String) : Except PrintError String := do
  let ls ← p.lines indent
  return String.join (ls.map (· ++ "\n"))

end Program

end CounterPrograms
