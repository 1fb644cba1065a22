import CounterPrograms.Labels
import CounterPrograms.Run.Eval

/-!
# Running GOTO programs

A machine keeps a memory, the positions of the labels and the position of the next instruction,
both counted from zero.  Executing an instruction is a step; a run ends at a `HALT` or behind the
last instruction, and the instruction after `stepLimit` others stops it.  A jump to a label that no
instruction carries is an error when it is taken, not before.  A program in which an instruction is
missing is refused while its labels are numbered.
-/

namespace CounterPrograms

/-- The state of a GOTO program that runs. -/
structure Machine where
  memory : Memory
  labels : List (String × Nat)
  pc : Nat
deriving DecidableEq, Repr

namespace Machine

/-- The machine before anything has happened. -/
def empty : Machine := ⟨.empty, [], 0⟩

/-- What executing an instruction leads to. -/
inductive Step
  /-- The next instruction is to be executed. -/
  | going (machine : Machine)
  /-- The program has halted. -/
  | halted (machine : Machine)
  /-- The instruction failed. -/
  | failed (error : RunError) (machine : Machine)
deriving DecidableEq, Repr

/-- Goes on with the next instruction. -/
def next (s : Machine) : Step :=
  .going { s with pc := s.pc + 1 }

/-- Goes on with the instruction that carries `label`. -/
def jump (s : Machine) (label : String) : Step :=
  match s.labels.lookup label with
  | some position => .going { s with pc := position }
  | none => .failed (.undefinedLabel label) s

/-- Executes a statement. -/
def execute (s : Machine) : Stmt → Step
  | .assign target value =>
    match value.eval s.memory.store with
    | .ok n => { s with memory := s.memory.assign target n }.next
    | .error e => .failed e s
  | .goto target => s.jump target
  | .ifGoto c target =>
    match c.eval s.memory.store with
    | .ok true => s.jump target
    | .ok false => s.next
    | .error e => .failed e s
  | .halt => .halted s
  | other => .failed (.unknownInstruction (s.pc + 1) other.found) s

/-- Counts a step. -/
def count (s : Machine) : Machine :=
  { s with memory := s.memory.count }

/-- Runs a program of which `left` more instructions may be executed.  When none is left the next
one is counted and stops the run. -/
def run (code : List Instruction) : Nat → Machine → Outcome Machine
  | 0, s => if s.pc < code.length then .raised .stepLimit s.count else .returned s
  | left + 1, s =>
    match code[s.pc]? with
    | none => .returned s
    | some i =>
      match s.count.execute i.statement with
      | .going t => run code left t
      | .halted t => .returned t
      | .failed e t => .raised e t

/-- Starts a program from its first instruction, once its labels have been numbered.  A repeated
label leaves the labels before it and the position at which the machine stood. -/
def start (code : List Instruction) (s : Machine) : Outcome Machine :=
  match Labels.table 0 code with
  | .error r => .raised (.duplicateLabel r.label) { s with labels := r.before }
  | .ok labels => run code (stepLimit - s.memory.steps) { s with labels := labels, pc := 0 }

/-- Numbers the labels of instructions behind which `found` stands in place of an instruction.  None
is executed: the machine keeps its position, and counts no step. -/
def refuse (code : List Instruction) (found : Foreign) (s : Machine) : Outcome Machine :=
  match Labels.table 0 code with
  | .error r => .raised (.duplicateLabel r.label) { s with labels := r.before }
  | .ok labels =>
    .raised (.unknownInstruction (code.length + 1) found) { s with labels := labels }

end Machine

end CounterPrograms
