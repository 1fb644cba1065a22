import CounterPrograms.Run.Eval

/-!
# Running WHILE programs

A loop checks its condition before every repetition, and every such check is a step; the condition
of an `IF` is no step.  The check after `stepLimit` others stops the run.
-/

namespace CounterPrograms

namespace While

/-- Runs a loop that may check its condition `checks` more times.  When none is left the next check
is counted and stops the run. -/
def repeatWhile (c : Condition) (body : Memory → Outcome Memory) :
    Nat → Memory → Outcome Memory
  | 0, m => m.tick
  | checks + 1, m =>
    m.tick.andThen fun m =>
      m.test c fun holds =>
        if holds then (body m).andThen (repeatWhile c body checks) else .returned m

mutual

/-- Runs a statement. -/
def runStmt : Stmt → Memory → Outcome Memory
  | .assign target value, m => m.runAssign target value
  | .whileDo c body, m => repeatWhile c (runBlock body) (stepLimit - m.steps) m
  | .ifThen c thenBody none, m =>
    m.test c fun holds => if holds then runBlock thenBody m else .returned m
  | .ifThen c thenBody (some elseBody), m =>
    m.test c fun holds => if holds then runBlock thenBody m else runBlock elseBody m
  | s, m => .raised (.unknownStatement .whileDo s.found) m
termination_by structural s => s

/-- Runs the statements of a block one after the other. -/
def runBlock : List Stmt → Memory → Outcome Memory
  | [], m => .returned m
  | s :: rest, m => (runStmt s m).andThen (runBlock rest)
termination_by structural ss => ss

end

end While

end CounterPrograms
