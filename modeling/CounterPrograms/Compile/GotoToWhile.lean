import CounterPrograms.Compile.Basic
import CounterPrograms.Labels

/-!
# From GOTO to WHILE

A fresh variable `c` simulates the position in the program, counted from one:

```
c := 1;
WHILE c != 0 DO
    IF c = 1 THEN <effect of instruction 1> END
    …
    IF c = n THEN <effect of instruction n> END
END
```

The effect of an instruction sets `c` to the position of the next one, and to zero where the program
ends.  A program without instructions compiles to one without statements.
-/

namespace CounterPrograms

namespace GotoToWhile

/-- What the effects of instructions depend on. -/
structure Layout where
  /-- The variable that simulates the position. -/
  counter : String
  /-- The positions of the labels. -/
  positions : List (String × Nat)
  /-- The number of instructions. -/
  size : Nat

namespace Layout

variable (l : Layout)

/-- Sets the simulated position. -/
def moveTo (position : Nat) : Stmt :=
  .assign l.counter (.num position)

/-- The position after the given one, zero behind the last. -/
def following (position : Nat) : Nat :=
  if position < l.size then position + 1 else 0

/-- The position of a label. -/
def target (label : String) : Except CompileError Nat :=
  match l.positions.lookup label with
  | some position => .ok position
  | none => .error (.unknownLabel label)

/-- The effect of the statement at the given position. -/
def effect (position : Nat) : Stmt → Except CompileError (List Stmt)
  | .assign x value => do
    let e ← value.admit
    return [.assign x e, l.moveTo (l.following position)]
  | .goto label => do
    let t ← l.target label
    return [l.moveTo t]
  | .ifGoto c label => do
    let c ← c.admit
    let t ← l.target label
    return [.ifThen c [l.moveTo t] (some [l.moveTo (l.following position)])]
  | .halt => return [l.moveTo 0]
  | s => .error (.invalidStatement .goto s.found)

/-- `c = position` -/
def isAt (position : Nat) : Condition :=
  ⟨.var l.counter, Comparison.eq.symbol, .num position⟩

/-- One case for each instruction, the first of which has the given position. -/
def cases (position : Nat) : List Instruction → Except CompileError (List Stmt)
  | [] => return []
  | i :: rest => do
    let first ← l.effect position i.statement
    let others ← cases (position + 1) rest
    return .ifThen (l.isAt position) first none :: others

/-- The simulation of a list of instructions. -/
def simulation (is : List Instruction) : Except CompileError (List Stmt) := do
  let body ← l.cases 1 is
  return [l.moveTo 1, .whileDo ⟨.var l.counter, Comparison.ne.symbol, .num 0⟩ body]

end Layout

/-- Compiles a program; the new variable is none of its own and none of the reserved ones. -/
def attempt (p : Program) (reserved : List String) : Attempt :=
  match Fresh.above (p.names ++ reserved) with
  | .error e => .stillborn e
  | .ok f =>
    match Labels.table 1 p.instructions with
    | .error r => ⟨.error (.duplicateLabel r.label), some f, none, none, []⟩
    | .ok positions =>
      if p.instructions.isEmpty then ⟨.ok (.whileDo []), some f, none, none, positions⟩
      else
        match f.newVariable with
        | .error e => ⟨.error (.numeral e), some f, none, none, positions⟩
        | .ok (counter, f) =>
          let layout : Layout := ⟨counter, positions, p.instructions.length⟩
          ⟨(layout.simulation p.instructions).map .whileDo, some f, none, some counter, positions⟩

end GotoToWhile

end CounterPrograms
