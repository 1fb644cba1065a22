import CounterPrograms.Program.Basic
import CounterPrograms.Run.Memory

/-!
# The values of expressions and conditions

Both sides of an operator have a value before the operator is looked at.
-/

namespace CounterPrograms

/-- The value of an expression in a store. -/
def Expr.eval (s : Store) : Expr → Except RunError Int
  | num n => .ok n
  | var name => .ok (s.value name)
  | binary left op right => do
    let a ← left.eval s
    let b ← right.eval s
    match Arithmetic.ofSymbol? op with
    | some o => return o.apply a b
    | none => .error (.unknownOperator op)
  | foreign found => .error (.invalidExpression found)

/-- Whether a condition holds in a store. -/
def Condition.eval (s : Store) (c : Condition) : Except RunError Bool := do
  let a ← c.left.eval s
  let b ← c.right.eval s
  match Comparison.ofSymbol? c.op with
  | some o => return o.holds a b
  | none => .error (.unknownComparison c.op)

namespace Memory

/-- Runs an assignment. -/
def runAssign (m : Memory) (target : String) (value : Expr) : Outcome Memory :=
  match value.eval m.store with
  | .ok n => .returned (m.assign target n)
  | .error e => .raised e m

/-- Goes on with `next` according to whether a condition holds. -/
def test (m : Memory) (c : Condition) (next : Bool → Outcome Memory) : Outcome Memory :=
  match c.eval m.store with
  | .ok b => next b
  | .error e => .raised e m

end Memory

end CounterPrograms
