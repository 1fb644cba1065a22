import CounterPrograms.Program.Names

/-!
# Fresh names

New variables are `x` with an index above all indices in use, new labels are `M` with a count of
their own.  Both counters only grow, so no name comes twice.
-/

namespace CounterPrograms

/-- The index of the next new variable and the number of the next new label. -/
structure Fresh where
  nextVariable : Nat
  nextLabel : Nat
deriving DecidableEq, Repr

namespace Fresh

/-- Fresh names above the given ones. -/
def above (names : List String) : Except NumeralError Fresh := do
  let highest ← Names.highestIndex names
  return ⟨highest.elim 0 (· + 1), 0⟩

/-- A new variable.  It cannot be named if its index is too large to be written. -/
def newVariable (f : Fresh) : Except NumeralError (String × Fresh) := do
  let index ← Numeral.write f.nextVariable
  return ("x" ++ index, { f with nextVariable := f.nextVariable + 1 })

/-- The label with the given number. -/
def labelName (n : Nat) : String :=
  "M" ++ Numeral.text n

/-- A new label. -/
def newLabel (f : Fresh) : String × Fresh :=
  (labelName f.nextLabel, { f with nextLabel := f.nextLabel + 1 })

end Fresh

end CounterPrograms
