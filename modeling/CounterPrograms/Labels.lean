import CounterPrograms.Numeral
import CounterPrograms.Program.Basic

/-!
# Labels

Which instruction a label names, and what can be wrong with labels: two instructions carry the same
one, or a jump goes to a label that no instruction carries.

`Labels.table` numbers the labels and stops at the first that was there before.  `Labels.problems`
lists everything that is wrong, first the repeated labels and then the jumps without a target, both
in the order of the instructions.
-/

namespace CounterPrograms

namespace Labels

/-- The labels of instructions with their positions, the first instruction having position
`base`. -/
def carried (base : Nat) : List Instruction → List (String × Nat)
  | [] => []
  | i :: rest =>
    match i.label with
    | some l => (l, base) :: carried (base + 1) rest
    | none => carried (base + 1) rest

/-- A label that is there already, and the labels before it with their positions. -/
structure Repeated where
  label : String
  before : List (String × Nat)
deriving DecidableEq, Repr

/-- Adds labels one by one to those `before`, unless one is repeated. -/
def addAll (before : List (String × Nat)) :
    List (String × Nat) → Except Repeated (List (String × Nat))
  | [] => .ok before
  | (l, position) :: rest =>
    if (before.lookup l).isSome then .error ⟨l, before⟩
    else addAll (before ++ [(l, position)]) rest

/-- The positions of all labels, the first instruction having position `base`. -/
def table (base : Nat) (is : List Instruction) : Except Repeated (List (String × Nat)) :=
  addAll [] (carried base is)

/-! ### What can be wrong -/

/-- Something that is wrong with the labels of a program.  Instructions are counted from one. -/
inductive Problem
  /-- The instruction at `position` carries the label that the one at `first` carries already. -/
  | duplicate (position : Nat) (label : String) (first : Nat)
  /-- The instruction at `position` jumps to a label that no instruction carries. -/
  | missing (position : Nat) (target : String)
deriving DecidableEq, Repr

/-- The message about a problem. -/
def Problem.message : Problem → String
  | duplicate position label first =>
    "Instrução " ++ Numeral.text position ++ ": Rótulo '" ++ label ++
      "' já definido na instrução " ++ Numeral.text first
  | missing position target =>
    "Instrução " ++ Numeral.text position ++ ": Destino de goto '" ++ target ++ "' não existe"

/-- The repeated labels among those carried, after the labels in `seen`. -/
def duplicates (seen : List (String × Nat)) : List (String × Nat) → List Problem
  | [] => []
  | (l, position) :: rest =>
    match seen.lookup l with
    | some first => .duplicate position l first :: duplicates seen rest
    | none => duplicates ((l, position) :: seen) rest

/-- The jumps of instructions, the first of which has position `base`, whose target is not among
`labels`. -/
def missing (labels : List String) (base : Nat) : List Instruction → List Problem
  | [] => []
  | i :: rest =>
    match i.statement.jumpTarget? with
    | some target =>
      if target ∈ labels then missing labels (base + 1) rest
      else .missing base target :: missing labels (base + 1) rest
    | none => missing labels (base + 1) rest

/-- Everything that is wrong with the labels of a program. -/
def problems (is : List Instruction) : List Problem :=
  let labels := carried 1 is
  duplicates [] labels ++ missing (labels.map Prod.fst) 1 is

/-- The message about several problems: a line for each. -/
def message (problems : List Problem) : String :=
  "\n".intercalate (problems.map Problem.message)

end Labels

end CounterPrograms
