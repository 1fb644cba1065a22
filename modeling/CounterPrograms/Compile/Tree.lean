import CounterPrograms.Compile.Between
import CounterPrograms.Program.Tree.Names
import CounterPrograms.Program.Tree.Reader

/-!
# Compiling JSON trees

What the compilations do with trees that need not be those of programs.  The names in use are looked
for before anything is compiled, so a tree in which they cannot be told is refused for that reason
first.
-/

namespace CounterPrograms

namespace Tree

/-- The sign of a node that has one. -/
def sign (j : Json) : Except CompileError String :=
  match kind j with
  | "Condition" | "BinaryOp" => .ok (text j "op")
  | k => .error (.invalidExpression (.missing k "op"))

/-- The node of the negation of a condition node.  Only the sign is looked at; the sides may be
anything and are carried over. -/
def negate (j : Json) : Except CompileError Json := do
  let op ← negatedSymbol (← sign j)
  return node "Condition"
    [("left", (j.field? "left").getD .null), ("op", .str op),
      ("right", (j.field? "right").getD .null)]

/-- Compiles the program that a value denotes between languages given by name. -/
def compileNamed (source target : String) (j : Json) (reserved : List String) :
    Except CompileError Program :=
  match Language.ofName? source, Language.ofName? target with
  | some s, some t =>
    match if s.compilesTo t then unreachable? j else none with
    | some found => .error (.invalidStatement s found)
    | none => (Program.ofJsonFor s j).compile s t reserved
  | _, _ => .error (.unsupported source target)

end Tree

end CounterPrograms
