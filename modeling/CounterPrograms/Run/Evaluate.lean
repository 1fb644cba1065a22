import CounterPrograms.Bindings
import CounterPrograms.Run.Goto
import CounterPrograms.Run.Loop
import CounterPrograms.Run.While

/-!
# Evaluating programs

An evaluation forgets the memory of the one before it, binds the initial values and runs the
program.  One machine may evaluate many programs: what an evaluation leaves is where the next one
begins, and only positions and labels may survive it.
-/

namespace CounterPrograms

/-- Initial values with the names they are given to, no name twice. -/
abbrev Inputs := List (String × InitialValue)

namespace Inputs

/-- No initial values. -/
def none : Inputs := []

/-- Initial values as a list of pairs gives them.  A name that comes again keeps its place and gets
the later value. -/
def ofPairs (pairs : List (String × Json)) : Inputs :=
  Bindings.ofPairs (pairs.map fun p => (p.1, .ofJson p.2))

/-- Natural numbers as initial values. -/
def ofNaturals (pairs : List (String × Nat)) : Inputs :=
  Bindings.ofPairs (pairs.map fun p => (p.1, .natural p.2))

/-- The names that get initial values. -/
def names (inputs : Inputs) : List String :=
  inputs.map Prod.fst

end Inputs

namespace Machine

/-- Runs a program on the machine as a program of the given language.  As a GOTO program it is refused
if an instruction is missing in it, as all are in a program made of blocks. -/
def execution (language : Language) (p : Program) (s : Machine) : Outcome Machine :=
  match language with
  | .loop => (Loop.runBlock p.statements s.memory).map fun m => { s with memory := m }
  | .whileDo => (While.runBlock p.statements s.memory).map fun m => { s with memory := m }
  | .goto =>
    match p.absent? with
    | some found => s.refuse p.instructions.tail found
    | none => s.start p.instructions

/-- Evaluates a program on a machine that may have been used before. -/
def evaluate (language : Language) (p : Program) (inputs : Inputs) (s : Machine) :
    Outcome Machine :=
  ((Memory.bindAll inputs .empty).map fun m => { s with memory := m }).andThen
    (execution language p)

end Machine

namespace Program

/-- The final values of the variables of a program that is run in the given language. -/
def runIn (language : Language) (p : Program) (inputs : Inputs) : Except RunError Store :=
  match Machine.empty.evaluate language p inputs with
  | .returned s => .ok s.memory.store
  | .raised e _ => .error e

/-- The final values of the variables of a program. -/
def run (p : Program) (inputs : Inputs) : Except RunError Store :=
  p.runIn p.language inputs

end Program

end CounterPrograms
