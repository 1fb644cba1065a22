import CounterPrograms.Run.Eval

/-!
# Running LOOP programs

The number of repetitions of a loop is the value of its counter when the loop is entered; what the
body does to the counter does not change it.  A negative number means no repetition.  Loops count
no steps, so every LOOP program returns.
-/

namespace CounterPrograms

namespace Loop

/-- Runs `body` a number of times, as long as no error stops it. -/
def repeatTimes (body : Memory → Outcome Memory) : Nat → Memory → Outcome Memory
  | 0, m => .returned m
  | n + 1, m => (body m).andThen (repeatTimes body n)

mutual

/-- Runs a statement. -/
def runStmt : Stmt → Memory → Outcome Memory
  | .assign target value, m => m.runAssign target value
  | .loop counter body, m => repeatTimes (runBlock body) (m.store.value counter).toNat m
  | s, m => .raised (.unknownStatement .loop s.found) m
termination_by structural s => s

/-- Runs the statements of a block one after the other. -/
def runBlock : List Stmt → Memory → Outcome Memory
  | [], m => .returned m
  | s :: rest, m => (runStmt s m).andThen (runBlock rest)
termination_by structural ss => ss

end

end Loop

end CounterPrograms
