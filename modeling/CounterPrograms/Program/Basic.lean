import CounterPrograms.Language

/-!
# Programs

The trees of programs in the three languages, which share their expressions, conditions and
assignments.  Operators are kept as they were written; `Arithmetic` and `Comparison` are the
meanings of those that have one.

A tree need not come from a text.  Whoever builds one may put a value of another kind where an
expression or a statement belongs; such a place is `foreign` and remembers what was found there.
Where a program is asked for parts that only programs of another kind have, the answer is one such
place.
-/

namespace CounterPrograms

/-! ### Operators -/

/-- The operations on numbers.  Subtraction stops at zero. -/
inductive Arithmetic
  | add
  | sub
deriving DecidableEq, Repr

namespace Arithmetic

/-- The sign of an operation. -/
def symbol : Arithmetic → String
  | add => "+"
  | sub => "-"

/-- The operation with a given sign. -/
def ofSymbol? (s : String) : Option Arithmetic :=
  [add, sub].find? fun o => o.symbol = s

/-- The result of an operation. -/
def apply : Arithmetic → Int → Int → Int
  | add, a, b => a + b
  | sub, a, b => max 0 (a - b)

@[simp]
theorem ofSymbol?_symbol (o : Arithmetic) : ofSymbol? o.symbol = some o := by
  cases o <;> decide

end Arithmetic

/-- The relations between numbers. -/
inductive Comparison
  | eq
  | ne
  | lt
  | gt
  | le
  | ge
deriving DecidableEq, Repr

namespace Comparison

/-- The sign of a relation. -/
def symbol : Comparison → String
  | eq => "="
  | ne => "!="
  | lt => "<"
  | gt => ">"
  | le => "<="
  | ge => ">="

/-- The relation with a given sign. -/
def ofSymbol? (s : String) : Option Comparison :=
  [eq, ne, lt, gt, le, ge].find? fun o => o.symbol = s

/-- Whether a relation holds. -/
def holds : Comparison → Int → Int → Bool
  | eq, a, b => a = b
  | ne, a, b => a ≠ b
  | lt, a, b => a < b
  | gt, a, b => b < a
  | le, a, b => a ≤ b
  | ge, a, b => b ≤ a

/-- The relation that holds exactly when the given one does not. -/
def negation : Comparison → Comparison
  | eq => ne
  | ne => eq
  | lt => ge
  | gt => le
  | le => gt
  | ge => lt

@[simp]
theorem ofSymbol?_symbol (o : Comparison) : ofSymbol? o.symbol = some o := by
  cases o <;> decide

theorem holds_negation (o : Comparison) (a b : Int) :
    o.negation.holds a b = !o.holds a b := by
  cases o <;> simp only [negation, holds, ← decide_not] <;> congr 1 <;> apply propext <;> omega

end Comparison

/-! ### Foreign places -/

/-- What is found in a tree where an expression or a statement belongs. -/
inductive Foreign
  /-- A value of another kind. -/
  | value (kind : String)
  /-- Nothing: the place is a part of a value of the given kind, which has no such part. -/
  | missing (kind part : String)
  /-- Nothing: the place is in a list, and a value of the given kind stands for the list. -/
  | unlisted (kind : String)
  /-- Nothing: the place is in two lists one after the other, and values of the given kinds stand
  for the lists. -/
  | unjoined (first second : String)
deriving DecidableEq, Repr

/-- The message about what was found.  A value of another kind is the subject of the complaint;
where nothing was found the message says why. -/
def Foreign.message (complaint : String) : Foreign → String
  | value kind => complaint ++ ": " ++ kind
  | missing kind part => "'" ++ kind ++ "' object has no attribute '" ++ part ++ "'"
  | unlisted kind => "'" ++ kind ++ "' object is not iterable"
  | unjoined first second =>
    if first = "list" ∨ first = "str" then
      "can only concatenate " ++ first ++ " (not \"" ++ second ++ "\") to " ++ first
    else "unsupported operand type(s) for +: '" ++ first ++ "' and '" ++ second ++ "'"

/-! ### Trees -/

/-- Expressions. -/
inductive Expr
  | num (value : Int)
  | var (name : String)
  | binary (left : Expr) (op : String) (right : Expr)
  | foreign (found : Foreign)
deriving DecidableEq, Repr

/-- A comparison of two expressions. -/
structure Condition where
  left : Expr
  op : String
  right : Expr
deriving DecidableEq, Repr

/-- The statements of all three languages. -/
inductive Stmt
  | assign (target : String) (value : Expr)
  | loop (counter : String) (body : List Stmt)
  | whileDo (condition : Condition) (body : List Stmt)
  | ifThen (condition : Condition) (thenBody : List Stmt) (elseBody : Option (List Stmt))
  | goto (target : String)
  | ifGoto (condition : Condition) (target : String)
  | halt
  | foreign (found : Foreign)
deriving Repr

/-- A statement with the label it may carry. -/
structure Instruction where
  statement : Stmt
  label : Option String
deriving Repr

/-- Programs: blocks of statements, or lists of instructions. -/
inductive Program
  | loop (statements : List Stmt)
  | whileDo (statements : List Stmt)
  | goto (instructions : List Instruction)
deriving Repr

namespace Stmt

/-- What a statement is where statements of its kind do not belong. -/
def found : Stmt → Foreign
  | assign .. => .value "AssignStatement"
  | loop .. => .value "LoopStatement"
  | whileDo .. => .value "WhileStatement"
  | ifThen .. => .value "IfStatement"
  | goto _ => .value "GotoStatement"
  | ifGoto .. => .value "IfGotoStatement"
  | halt => .value "HaltStatement"
  | foreign f => f

/-- The label to which a statement jumps, whether always or on a condition. -/
def jumpTarget? : Stmt → Option String
  | goto target => some target
  | ifGoto _ target => some target
  | _ => none

end Stmt

/-- What is found in place of an instruction.  An instruction has a statement, or a value of another
kind for its statement; where neither is found there is no instruction. -/
def Instruction.absent? (i : Instruction) : Option Foreign :=
  match i.statement with
  | .foreign (.value _) => none
  | .foreign found => some found
  | _ => none

namespace Program

/-- The language in which a program is written. -/
def language : Program → Language
  | loop _ => .loop
  | whileDo _ => .whileDo
  | goto _ => .goto

/-- The statements of a program made of blocks.  A list of instructions is no such program, and
nothing is found where its statements would be. -/
def statements : Program → List Stmt
  | loop ss => ss
  | whileDo ss => ss
  | goto _ => [.foreign (.missing "GotoProgram" "statements")]

/-- The instructions of a GOTO program.  A program made of blocks is no such program, and nothing is
found where its instructions would be. -/
def instructions : Program → List Instruction
  | goto is => is
  | loop _ => [⟨.foreign (.missing "LoopProgram" "instructions"), none⟩]
  | whileDo _ => [⟨.foreign (.missing "WhileProgram" "instructions"), none⟩]

/-- What is found where an instruction belongs, if a program has a place without instruction.  Such
a place comes before all instructions. -/
def absent? (p : Program) : Option Foreign :=
  p.instructions.head?.bind Instruction.absent?

end Program

/-! ### Equality -/

mutual

/-- Whether two statements are equal. -/
def Stmt.beq : Stmt → Stmt → Bool
  | .assign x e, .assign y f => x = y && e = f
  | .loop x s, .loop y t => x = y && Stmt.beqList s t
  | .whileDo c s, .whileDo d t => c = d && Stmt.beqList s t
  | .ifThen c s none, .ifThen d t none => c = d && Stmt.beqList s t
  | .ifThen c s (some u), .ifThen d t (some v) =>
    c = d && Stmt.beqList s t && Stmt.beqList u v
  | .goto l, .goto m => l = m
  | .ifGoto c l, .ifGoto d m => c = d && l = m
  | .halt, .halt => true
  | .foreign f, .foreign g => f = g
  | _, _ => false
termination_by structural s => s

/-- Whether two blocks are equal. -/
def Stmt.beqList : List Stmt → List Stmt → Bool
  | [], [] => true
  | s :: ss, t :: ts => Stmt.beq s t && Stmt.beqList ss ts
  | _, _ => false
termination_by structural ss => ss

end

mutual

theorem Stmt.beq_iff (s t : Stmt) : Stmt.beq s t = true ↔ s = t := by
  match s, t with
  | .assign x e, t => cases t <;> simp [Stmt.beq]
  | .loop x s, t => cases t <;> simp [Stmt.beq, Stmt.beqList_iff s]
  | .whileDo c s, t => cases t <;> simp [Stmt.beq, Stmt.beqList_iff s]
  | .ifThen c s none, t =>
    cases t with
    | ifThen d t u => cases u <;> simp [Stmt.beq, Stmt.beqList_iff s]
    | _ => simp [Stmt.beq]
  | .ifThen c s (some u), t =>
    cases t with
    | ifThen d t v =>
      cases v <;> simp [Stmt.beq, Stmt.beqList_iff s, Stmt.beqList_iff u, and_assoc]
    | _ => simp [Stmt.beq]
  | .goto l, t => cases t <;> simp [Stmt.beq]
  | .ifGoto c l, t => cases t <;> simp [Stmt.beq]
  | .halt, t => cases t <;> simp [Stmt.beq]
  | .foreign f, t => cases t <;> simp [Stmt.beq]

theorem Stmt.beqList_iff (s t : List Stmt) : Stmt.beqList s t = true ↔ s = t := by
  match s, t with
  | [], [] => simp [Stmt.beqList]
  | [], _ :: _ => simp [Stmt.beqList]
  | _ :: _, [] => simp [Stmt.beqList]
  | a :: ss, b :: ts => simp [Stmt.beqList, Stmt.beq_iff a b, Stmt.beqList_iff ss ts]

end

instance : DecidableEq Stmt := fun s t => decidable_of_iff _ (Stmt.beq_iff s t)

deriving instance DecidableEq for Instruction

deriving instance DecidableEq for Program

end CounterPrograms
