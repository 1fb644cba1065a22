import CounterPrograms.Compile.Basic

/-!
# From LOOP to WHILE

A loop over `v` becomes

```
t := v;
WHILE t != 0 DO
    …
    t := t - 1;
END
```

with a fresh variable `t`, so what the body does to `v` does not change the number of repetitions.
-/

namespace CounterPrograms

namespace LoopToWhile

/-- A computation that draws fresh names and keeps them also after an error. -/
abbrev Emit := EStateM CompileError Fresh

/-- Draws a fresh variable. -/
def freshVariable : Emit String := fun f =>
  match f.newVariable with
  | .ok (name, f) => .ok name f
  | .error e => .error (.numeral e) f

/-- Gives the value, or fails without drawing a name. -/
def lift {α : Type} (x : Except CompileError α) : Emit α := fun f =>
  match x with
  | .ok a => .ok a f
  | .error e => .error e f

/-- `t := t - 1` -/
def decrement (t : String) : Stmt :=
  .assign t (.binary (.var t) Arithmetic.sub.symbol (.num 1))

/-- `t != 0` -/
def nonzero (t : String) : Condition :=
  ⟨.var t, Comparison.ne.symbol, .num 0⟩

mutual

/-- Compiles a statement. -/
def compileStmt : Stmt → Emit (List Stmt)
  | .assign target value => do
    let e ← lift value.admit
    return [.assign target e]
  | .loop v body => do
    let t ← freshVariable
    let inner ← compileBlock body
    return [.assign t (.var v), .whileDo (nonzero t) (inner ++ [decrement t])]
  | s => throw (.invalidStatement .loop s.found)
termination_by structural s => s

/-- Compiles a block. -/
def compileBlock : List Stmt → Emit (List Stmt)
  | [] => return []
  | s :: rest => do
    let first ← compileStmt s
    let others ← compileBlock rest
    return first ++ others
termination_by structural ss => ss

end

/-- Compiles a program; new variables are none of its own and none of the reserved ones. -/
def attempt (p : Program) (reserved : List String) : Attempt :=
  match Fresh.above (p.names ++ reserved) with
  | .error e => .stillborn e
  | .ok f =>
    match compileBlock p.statements f with
    | .ok ss f => ⟨.ok (.whileDo ss), some f, none, none, []⟩
    | .error e f => ⟨.error e, some f, none, none, []⟩

end LoopToWhile

end CounterPrograms
