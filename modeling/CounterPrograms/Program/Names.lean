import CounterPrograms.Numeral
import CounterPrograms.Program.Basic

/-!
# The names in a program

The variables that a program reads or writes; labels are not among them.  A name of the form `x`
followed by decimal digits, of any script and with any leading zeros, has an index: the number that
the digits denote.
-/

namespace CounterPrograms

/-- The variables of an expression, in the order in which they occur. -/
def Expr.names : Expr → List String
  | num _ => []
  | var name => [name]
  | binary left _ right => left.names ++ right.names
  | foreign _ => []

/-- The variables of a condition. -/
def Condition.names (c : Condition) : List String :=
  c.left.names ++ c.right.names

mutual

/-- The variables of a statement. -/
def Stmt.names : Stmt → List String
  | .assign target value => target :: value.names
  | .loop counter body => counter :: Stmt.namesOfBlock body
  | .whileDo condition body => condition.names ++ Stmt.namesOfBlock body
  | .ifThen condition thenBody none => condition.names ++ Stmt.namesOfBlock thenBody
  | .ifThen condition thenBody (some elseBody) =>
    condition.names ++ Stmt.namesOfBlock thenBody ++ Stmt.namesOfBlock elseBody
  | .ifGoto condition _ => condition.names
  | .goto _ | .halt | .foreign _ => []
termination_by structural s => s

/-- The variables of a block. -/
def Stmt.namesOfBlock : List Stmt → List String
  | [] => []
  | s :: rest => s.names ++ Stmt.namesOfBlock rest
termination_by structural ss => ss

end

/-- The variables of a program. -/
def Program.names : Program → List String
  | .loop statements | .whileDo statements => Stmt.namesOfBlock statements
  | .goto instructions => Stmt.namesOfBlock (instructions.map Instruction.statement)

namespace Names

/-- Each of the given names once, in the order of their code points. -/
def listing (names : List String) : List String :=
  names.eraseDups.mergeSort fun a b => !decide (b < a)

/-- The digits of an indexed name. -/
def indexDigits? (name : String) : Option (List Char) :=
  match name.toList with
  | 'x' :: d :: ds => Numeral.plainDigits? (d :: ds)
  | _ => none

/-- The greatest index of the given names and `highest`, if there is one.  It cannot be found if an
index is too long to be read. -/
def highestIndexFrom : Option Nat → List String → Except NumeralError (Option Nat)
  | highest, [] => .ok highest
  | highest, name :: rest =>
    match indexDigits? name with
    | none => highestIndexFrom highest rest
    | some digits => do
      let index ← Numeral.read digits
      highestIndexFrom (some (highest.elim index (max index))) rest

/-- The greatest index of the given names, if one of them is indexed. -/
def highestIndex (names : List String) : Except NumeralError (Option Nat) :=
  highestIndexFrom none names

end Names

end CounterPrograms
