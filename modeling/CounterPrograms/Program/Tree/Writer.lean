import CounterPrograms.Program.Basic
import CounterPrograms.Program.Tree.Basic

/-!
# Writing programs as JSON trees

`Program.toJson` gives the tree of a program.
-/

namespace CounterPrograms

/-- What is written for a foreign place: a node of the kind that was found, or null for nothing. -/
def Foreign.toJson : Foreign → Json
  | value kind => Tree.node kind []
  | missing .. | unlisted _ | unjoined .. => .null

/-- The node of an expression. -/
def Expr.toJson : Expr → Json
  | num value => Tree.node "Number" [("value", .int value)]
  | var name => Tree.node "Variable" [("name", .str name)]
  | binary left op right =>
    Tree.node "BinaryOp" [("left", left.toJson), ("op", .str op), ("right", right.toJson)]
  | foreign found => found.toJson

/-- The node of a condition. -/
def Condition.toJson (c : Condition) : Json :=
  Tree.node "Condition" [("left", c.left.toJson), ("op", .str c.op), ("right", c.right.toJson)]

mutual

/-- The node of a statement. -/
def Stmt.toJson : Stmt → Json
  | .assign target value =>
    Tree.node "AssignStatement" [("var", .str target), ("expr", value.toJson)]
  | .loop counter body =>
    Tree.node "LoopStatement" [("counter", .str counter), ("body", .arr (Stmt.toJsonList body))]
  | .whileDo condition body =>
    Tree.node "WhileStatement"
      [("condition", condition.toJson), ("body", .arr (Stmt.toJsonList body))]
  | .ifThen condition thenBody none =>
    Tree.node "IfStatement"
      [("condition", condition.toJson), ("then_body", .arr (Stmt.toJsonList thenBody))]
  | .ifThen condition thenBody (some elseBody) =>
    Tree.node "IfStatement"
      [("condition", condition.toJson), ("then_body", .arr (Stmt.toJsonList thenBody)),
        ("else_body", .arr (Stmt.toJsonList elseBody))]
  | .goto target => Tree.node "GotoStatement" [("target", .str target)]
  | .ifGoto condition target =>
    Tree.node "IfGotoStatement" [("condition", condition.toJson), ("target", .str target)]
  | .halt => Tree.node "HaltStatement" []
  | .foreign found => found.toJson
termination_by structural s => s

/-- The nodes of a block. -/
def Stmt.toJsonList : List Stmt → List Json
  | [] => []
  | s :: rest => s.toJson :: Stmt.toJsonList rest
termination_by structural ss => ss

end

/-- The node of an instruction. -/
def Instruction.toJson (i : Instruction) : Json :=
  Tree.node "Instruction" <| ("statement", i.statement.toJson) ::
    match i.label with
    | none => []
    | some l => [("label", .str l)]

/-- The node of a program. -/
def Program.toJson : Program → Json
  | loop statements => Tree.node "LoopProgram" [("statements", .arr (Stmt.toJsonList statements))]
  | whileDo statements =>
    Tree.node "WhileProgram" [("statements", .arr (Stmt.toJsonList statements))]
  | goto instructions =>
    Tree.node "GotoProgram" [("instructions", .arr (instructions.map Instruction.toJson))]

end CounterPrograms
