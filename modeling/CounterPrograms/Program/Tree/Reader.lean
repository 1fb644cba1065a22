import CounterPrograms.Program.Basic
import CounterPrograms.Program.Printer
import CounterPrograms.Program.Tree.Basic

/-!
# Reading programs from JSON trees

`Program.ofJson` reads the tree of a program.  Reading never fails below the program: what is no
expression or statement becomes a foreign one that remembers what was found (`Foreign`), so that
whoever comes to that place can tell.  `Program.ofJsonFor` reads a tree that is to be treated as a
program of a given language, whatever its kind.
-/

namespace CounterPrograms

/-! ### Expressions and conditions -/

/-- The expression that a value denotes. -/
def Expr.ofJson (j : Json) : Expr :=
  match Tree.kind j with
  | "Number" => .num (((j.field? "value").bind Json.int?).getD 0)
  | "Variable" => .var (Tree.text j "name")
  | "BinaryOp" =>
    .binary
      (match j.part? "left" with
       | some ⟨l, _⟩ => Expr.ofJson l
       | none => .foreign (.value (Tree.kind .null)))
      (Tree.text j "op")
      (match j.part? "right" with
       | some ⟨r, _⟩ => Expr.ofJson r
       | none => .foreign (.value (Tree.kind .null)))
  | k => .foreign (.value k)
termination_by j

/-- The condition that a value denotes: a node with two sides and a sign between them.  The sides of
a value that has none are foreign. -/
def Condition.ofJson (j : Json) : Condition :=
  match Tree.kind j with
  | "Condition" | "BinaryOp" =>
    ⟨Expr.ofJson ((j.field? "left").getD .null), Tree.text j "op",
      Expr.ofJson ((j.field? "right").getD .null)⟩
  | k => ⟨.foreign (.missing k "left"), "", .foreign (.missing k "right")⟩

/-! ### Statements -/

/-- The statements in the field `name` of a node that has no list there: each character of a text is
a place without statement, and any other value leaves one place where nothing is found. -/
def Stmt.strays (j : Json) (name : String) : List Stmt :=
  match j.field? name with
  | none | some (.arr _) => []
  | some (.str s) => s.toList.map fun _ => .foreign (.value "str")
  | some v => [.foreign (.unlisted (Tree.kind v))]

/-- The statement that a value denotes. -/
def Stmt.ofJson (j : Json) : Stmt :=
  let condition := Condition.ofJson ((j.field? "condition").getD .null)
  match Tree.kind j with
  | "AssignStatement" =>
    .assign (Tree.text j "var") (Expr.ofJson ((j.field? "expr").getD .null))
  | "LoopStatement" =>
    .loop (Tree.text j "counter")
      (((j.parts "body").map fun ⟨s, _⟩ => Stmt.ofJson s) ++ Stmt.strays j "body")
  | "WhileStatement" =>
    .whileDo condition
      (((j.parts "body").map fun ⟨s, _⟩ => Stmt.ofJson s) ++ Stmt.strays j "body")
  | "IfStatement" =>
    .ifThen condition
      (((j.parts "then_body").map fun ⟨s, _⟩ => Stmt.ofJson s) ++ Stmt.strays j "then_body") <|
      match j.present? "else_body" with
      | some _ =>
        some (((j.parts "else_body").map fun ⟨s, _⟩ => Stmt.ofJson s) ++
          Stmt.strays j "else_body")
      | none => none
  | "GotoStatement" => .goto (Tree.text j "target")
  | "IfGotoStatement" => .ifGoto condition (Tree.text j "target")
  | "HaltStatement" => .halt
  | k => .foreign (.value k)
termination_by j

/-- The statements in the field `name` of a node. -/
def Stmt.listOfJson (j : Json) (name : String) : List Stmt :=
  (((j.field? name).bind Json.arr?).getD []).map Stmt.ofJson ++ Stmt.strays j name

/-! ### Instructions -/

namespace Tree

/-- Whether a value is an instruction. -/
def isInstruction (j : Json) : Bool :=
  kind j = "Instruction"

/-- The instruction of a node. -/
def instruction (j : Json) : Instruction :=
  ⟨Stmt.ofJson ((j.field? "statement").getD .null), (j.present? "label").bind Json.str?⟩

/-- What is found at the first place in the list of instructions of a node where no instruction is,
if there is such a place and the given part of an instruction is looked for. -/
def strayInstruction? (j : Json) (part : String) : Option Foreign :=
  match j.field? "instructions" with
  | none => none
  | some (.arr elements) =>
    (elements.find? fun e => !isInstruction e).map fun e => .missing (kind e) part
  | some (.str s) => if s.isEmpty then none else some (.missing (kind (.str s)) part)
  | some v => some (.unlisted (kind v))

/-- The instructions of a node, up to the first place where there is none. -/
def properInstructions (j : Json) : List Instruction :=
  let elements := ((j.field? "instructions").bind Json.arr?).getD []
  (elements.takeWhile isInstruction).map instruction

/-- The instructions of a node.  If there is a place without instruction, what is found there comes
first: the labels before that place are still looked at, but none of the instructions is ever
reached. -/
def instructions (j : Json) : List Instruction :=
  match strayInstruction? j "label" with
  | none => properInstructions j
  | some found => ⟨.foreign found, none⟩ :: properInstructions j

end Tree

/-! ### Programs -/

/-- The program that a value denotes, or the name of the kind of a value that is no program. -/
def Program.ofJson (j : Json) : Except String Program :=
  match Tree.kind j with
  | "LoopProgram" => .ok (.loop (Stmt.listOfJson j "statements"))
  | "WhileProgram" => .ok (.whileDo (Stmt.listOfJson j "statements"))
  | "GotoProgram" => .ok (.goto (Tree.instructions j))
  | k => .error k

/-- The program that a value denotes where one of the given language is looked for.  A value that is
no program has no statements or no instructions. -/
def Program.ofJsonFor (language : Language) (j : Json) : Program :=
  match Program.ofJson j, language with
  | .ok p, _ => p
  | .error k, .goto => .goto [⟨.foreign (.missing k "instructions"), none⟩]
  | .error k, _ => .loop [.foreign (.missing k "statements")]

/-- The text of the program that a value denotes. -/
def Tree.print (j : Json) (indent : String) : Except PrintError String :=
  match Program.ofJson j with
  | .ok p => p.print indent
  | .error k => .error (.invalidProgram k)

end CounterPrograms
