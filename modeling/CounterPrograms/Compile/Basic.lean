import CounterPrograms.Compile.Fresh

/-!
# Compiling programs

What the compilations between the languages share: their errors, the check of the expressions that
they carry over unchanged, and a record of what an attempt has used up.
-/

namespace CounterPrograms

/-- Why a program cannot be compiled. -/
inductive CompileError
  /-- There is no compilation between languages of the given names. -/
  | unsupported (source target : String)
  /-- There is no expression where one belongs. -/
  | invalidExpression (found : Foreign)
  /-- There is no statement of the language where one belongs. -/
  | invalidStatement (language : Language) (found : Foreign)
  /-- The sign of a relation has no meaning, so it has no negation either. -/
  | unsupportedComparison (op : String)
  /-- Two instructions carry the same label. -/
  | duplicateLabel (label : String)
  /-- A jump goes to a label that no instruction carries. -/
  | unknownLabel (label : String)
  /-- The index of a variable is too long. -/
  | numeral (error : NumeralError)
deriving DecidableEq, Repr

namespace CompileError

/-- The message for a program that cannot be compiled. -/
def message : CompileError → String
  | unsupported source target => "Tradução não suportada: " ++ source ++ " -> " ++ target
  | invalidExpression found => found.message "Tipo de expressão inválido"
  | invalidStatement language found => found.message ("Comando inválido em " ++ language.title)
  | unsupportedComparison op => "Operador relacional não suportado: " ++ op
  | duplicateLabel label => "Rótulo duplicado: '" ++ label ++ "'"
  | unknownLabel label => "Rótulo desconhecido: '" ++ label ++ "'"
  | numeral e => e.message

/-- The label that an error is about. -/
def label? : CompileError → Option String
  | duplicateLabel label => some label
  | unknownLabel label => some label
  | _ => none

end CompileError

/-! ### Expressions -/

/-- What is found in the first foreign part of an expression. -/
def Expr.foreign? : Expr → Option Foreign
  | num _ => none
  | var _ => none
  | binary left _ right => left.foreign?.or right.foreign?
  | foreign found => some found

/-- The expression itself, if it has no foreign part. -/
def Expr.admit (e : Expr) : Except CompileError Expr :=
  match e.foreign? with
  | none => .ok e
  | some found => .error (.invalidExpression found)

/-- The condition itself, if its sides have no foreign part. -/
def Condition.admit (c : Condition) : Except CompileError Condition := do
  let l ← c.left.admit
  let r ← c.right.admit
  return ⟨l, c.op, r⟩

/-- The sign of the relation that holds exactly when the relation of the given sign does not. -/
def negatedSymbol (op : String) : Except CompileError String :=
  match Comparison.ofSymbol? op with
  | some o => .ok o.negation.symbol
  | none => .error (.unsupportedComparison op)

/-- The condition that holds exactly when the given one does not. -/
def Condition.negate (c : Condition) : Except CompileError Condition := do
  let op ← negatedSymbol c.op
  return { c with op := op }

/-! ### Attempts -/

/-- What an attempt to compile a program gives, and the names it has used. -/
structure Attempt where
  /-- The compiled program, or what prevented it. -/
  result : Except CompileError Program
  /-- The fresh names that are left, if the names in use could be told at all. -/
  fresh : Option Fresh
  /-- The variable that instructions without effect assign to. -/
  idle : Option String
  /-- The variable that simulates the position in a GOTO program. -/
  counter : Option String
  /-- The positions of the labels of a GOTO program, counted from one. -/
  positions : List (String × Nat)

namespace Attempt

/-- An attempt that failed before any fresh name could be had. -/
def stillborn (e : NumeralError) : Attempt :=
  ⟨.error (.numeral e), none, none, none, []⟩

end Attempt

end CounterPrograms
