import CounterPrograms.Compile.Basic

/-!
# From WHILE to GOTO

Blocks become lists of instructions, and the program ends with `HALT`.  A loop becomes

```
M0: IF <the condition does not hold> THEN GOTO M1;
    …
    GOTO M0;
M1: xD := 0;
```

and a case distinction

```
    IF <the condition does not hold> THEN GOTO M0;
    …
    GOTO M1;
M0: …
M1: xD := 0;
```

A label needs an instruction to stand at.  Where none is at hand an idle one assigns zero to a fresh
variable `xD`, the same one throughout the program.
-/

namespace CounterPrograms

namespace WhileToGoto

/-- The fresh names that are left, and the variable of the idle instructions once there is one. -/
structure Supply where
  fresh : Fresh
  idle : Option String
deriving DecidableEq, Repr

/-- A computation that draws fresh names and keeps them also after an error. -/
abbrev Emit := EStateM CompileError Supply

/-- Draws a fresh label. -/
def freshLabel : Emit String := fun s =>
  let (name, f) := s.fresh.newLabel
  .ok name { s with fresh := f }

/-- The variable of the idle instructions, a fresh one if there is none yet. -/
def idleVariable : Emit String := fun s =>
  match s.idle with
  | some name => .ok name s
  | none =>
    match s.fresh.newVariable with
    | .ok (name, f) => .ok name ⟨f, some name⟩
    | .error e => .error (.numeral e) s

/-- Gives the value, or fails without drawing a name. -/
def lift {α : Type} (x : Except CompileError α) : Emit α := fun s =>
  match x with
  | .ok a => .ok a s
  | .error e => .error e s

/-- An instruction without effect that carries a label. -/
def idleAt (label : String) : Emit Instruction := do
  let d ← idleVariable
  return ⟨.assign d (.num 0), some label⟩

/-- The negation of a condition without foreign parts. -/
def negated (c : Condition) : Except CompileError Condition := do
  let c ← c.admit
  c.negate

/-- Makes a list of instructions begin at `label`: its first instruction takes the label if it
carries none, and otherwise an idle one is put before it. -/
def labelled (label : String) : List Instruction → Emit (List Instruction)
  | ⟨s, none⟩ :: rest => return ⟨s, some label⟩ :: rest
  | is => do
    let first ← idleAt label
    return first :: is

mutual

/-- Compiles a statement. -/
def compileStmt : Stmt → Emit (List Instruction)
  | .assign target value => do
    let e ← lift value.admit
    return [⟨.assign target e, none⟩]
  | .whileDo c body => do
    let start ← freshLabel
    let stop ← freshLabel
    let exit ← lift (negated c)
    let inner ← compileBlock body
    let last ← idleAt stop
    return ⟨.ifGoto exit stop, some start⟩ :: inner ++ [⟨.goto start, none⟩, last]
  | .ifThen c thenBody none => do
    let other ← freshLabel
    let stop ← freshLabel
    let exit ← lift (negated c)
    let inner ← compileBlock thenBody
    let alternative ← labelled other []
    let last ← idleAt stop
    return ⟨.ifGoto exit other, none⟩ :: inner ++ ⟨.goto stop, none⟩ :: alternative ++ [last]
  | .ifThen c thenBody (some elseBody) => do
    let other ← freshLabel
    let stop ← freshLabel
    let exit ← lift (negated c)
    let inner ← compileBlock thenBody
    let outer ← compileBlock elseBody
    let alternative ← labelled other outer
    let last ← idleAt stop
    return ⟨.ifGoto exit other, none⟩ :: inner ++ ⟨.goto stop, none⟩ :: alternative ++ [last]
  | s => throw (.invalidStatement .whileDo s.found)
termination_by structural s => s

/-- Compiles a block. -/
def compileBlock : List Stmt → Emit (List Instruction)
  | [] => return []
  | s :: rest => do
    let first ← compileStmt s
    let others ← compileBlock rest
    return first ++ others
termination_by structural ss => ss

end

/-- Compiles a program; new variables are none of its own and none of the reserved ones. -/
def attempt (p : Program) (reserved : List String) : Attempt :=
  match Fresh.above (p.names ++ reserved) with
  | .error e => .stillborn e
  | .ok f =>
    match compileBlock p.statements ⟨f, none⟩ with
    | .ok is s => ⟨.ok (.goto (is ++ [⟨.halt, none⟩])), some s.fresh, s.idle, none, []⟩
    | .error e s => ⟨.error e, some s.fresh, s.idle, none, []⟩

end WhileToGoto

end CounterPrograms
