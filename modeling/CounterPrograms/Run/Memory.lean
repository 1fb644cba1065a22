import CounterPrograms.Json.Display
import CounterPrograms.Program.Basic
import CounterPrograms.Run.Store

/-!
# The memory of a run

A run keeps a store, the names that are still locked, and a count of steps.  An initial value given
from outside locks its name: the first assignment to the name is dropped and takes the lock away.

A run ends in an `Outcome`: it returns with a final state, or an error stops it in the state that it
had reached.
-/

namespace CounterPrograms

/-- What stops a run. -/
inductive RunError
  /-- The initial value of a name, shown as `value`, is no natural number. -/
  | unfitValue (name value : String)
  /-- The sign of an operation has no meaning. -/
  | unknownOperator (op : String)
  /-- The sign of a relation has no meaning. -/
  | unknownComparison (op : String)
  /-- There is no expression where one belongs. -/
  | invalidExpression (found : Foreign)
  /-- There is no statement of the language where one belongs. -/
  | unknownStatement (language : Language) (found : Foreign)
  /-- There is no statement of the language in the instruction at a position counted from one. -/
  | unknownInstruction (position : Nat) (found : Foreign)
  /-- Two instructions carry the same label. -/
  | duplicateLabel (label : String)
  /-- A jump goes to a label that no instruction carries. -/
  | undefinedLabel (label : String)
  /-- The run takes more steps than allowed. -/
  | stepLimit
deriving DecidableEq, Repr

/-- The greatest number of steps of a run: checks of loop conditions in the WHILE language,
executed instructions in the GOTO language. -/
def stepLimit : Nat := 1000

/-- The message of what stopped a run. -/
def RunError.message : RunError → String
  | unfitValue name value =>
    "Valor inicial inválido para '" ++ name ++ "': " ++ value ++ " (esperado inteiro >= 0)"
  | unknownOperator op => "Operador desconhecido: " ++ op
  | unknownComparison op => "Operador relacional inválido: " ++ op
  | invalidExpression found => found.message "Tipo de expressão inválido"
  | unknownStatement language found =>
    found.message ("Comando desconhecido em " ++ language.title)
  | unknownInstruction position found =>
    found.message ("Comando desconhecido na instrução " ++ Numeral.text position)
  | duplicateLabel label => "Rótulo duplicado: '" ++ label ++ "'"
  | undefinedLabel label => "Rótulo não definido: '" ++ label ++ "'"
  | .stepLimit =>
    "Laço infinito detectado: limite de " ++ Numeral.text CounterPrograms.stepLimit ++
      " passos excedido"

/-! ### Outcomes -/

/-- How a run ended, and the state in which it did. -/
inductive Outcome (σ : Type)
  | returned (state : σ)
  | raised (error : RunError) (state : σ)
deriving DecidableEq, Repr

namespace Outcome

variable {σ τ : Type}

/-- The state in which a run ended. -/
def state : Outcome σ → σ
  | returned s => s
  | raised _ s => s

/-- The error that stopped a run. -/
def error? : Outcome σ → Option RunError
  | returned _ => none
  | raised e _ => some e

/-- Goes on with `next` if the run has returned. -/
@[inline] def andThen (o : Outcome σ) (next : σ → Outcome σ) : Outcome σ :=
  match o with
  | returned s => next s
  | raised e s => raised e s

/-- Changes the state in which a run ended. -/
def map (f : σ → τ) : Outcome σ → Outcome τ
  | returned s => returned (f s)
  | raised e s => raised e (f s)

@[simp]
theorem returned_andThen (s : σ) (next : σ → Outcome σ) : (returned s).andThen next = next s := rfl

@[simp]
theorem raised_andThen (e : RunError) (s : σ) (next : σ → Outcome σ) :
    (raised e s).andThen next = raised e s := rfl

end Outcome

/-! ### Initial values -/

/-- A value given for a name before a run. -/
inductive InitialValue
  /-- A natural number. -/
  | natural (n : Nat)
  /-- Anything else, and how it is shown. -/
  | unfit (shown : String)
deriving DecidableEq, Repr

/-- The initial value that a JSON value denotes.  Only integers without sign are numbers here. -/
def InitialValue.ofJson : Json → InitialValue
  | .int (.ofNat n) => natural n
  | j => unfit j.display

/-! ### Memory -/

/-- What a run keeps. -/
structure Memory where
  store : Store
  locked : List String
  steps : Nat
deriving DecidableEq, Repr

namespace Memory

/-- The memory before anything has happened. -/
def empty : Memory := ⟨.empty, [], 0⟩

/-- Gives `name` an initial value and locks it. -/
def bind (m : Memory) (name : String) (n : Nat) : Memory :=
  { m with store := m.store.set name n, locked := name :: m.locked }

/-- Gives names their initial values, in order, up to the first that is no natural number. -/
def bindAll : List (String × InitialValue) → Memory → Outcome Memory
  | [], m => .returned m
  | (name, .natural n) :: rest, m => bindAll rest (m.bind name n)
  | (name, .unfit shown) :: _, m => .raised (.unfitValue name shown) m

/-- Assigns a value, or takes the lock of a locked name away instead. -/
def assign (m : Memory) (name : String) (value : Int) : Memory :=
  if name ∈ m.locked then { m with locked := m.locked.filter (· ≠ name) }
  else { m with store := m.store.set name value }

/-- Counts a step. -/
def count (m : Memory) : Memory :=
  { m with steps := m.steps + 1 }

/-- Counts a step, and stops the run if the step is one too many. -/
def tick (m : Memory) : Outcome Memory :=
  if m.steps < stepLimit then .returned m.count else .raised .stepLimit m.count

end Memory

end CounterPrograms
