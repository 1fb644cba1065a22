import CounterPrograms.Program.Basic
import CounterPrograms.Program.Tree.Basic

/-!
# The names in a JSON tree

The variables in a node of any kind (`Tree.names`).  They can be told only if every place that may
hold more of them can be reached (`Tree.unreachable?`): blocks and lists of instructions must be
lists, and a list of instructions must hold nothing else.
-/

namespace CounterPrograms

namespace Tree

/-- The variables in a node of any kind.  What is no node, a label, or an instruction outside a
GOTO program has none. -/
def names (j : Json) : List String :=
  match kind j with
  | "LoopProgram" | "WhileProgram" =>
    (j.parts "statements").flatMap fun ⟨s, _⟩ => names s
  | "GotoProgram" =>
    (j.parts "instructions").flatMap fun ⟨i, _⟩ =>
      match i.part? "statement" with
      | some ⟨s, _⟩ => names s
      | none => []
  | "AssignStatement" => text j "var" :: namesIn j "expr"
  | "LoopStatement" =>
    text j "counter" :: (j.parts "body").flatMap fun ⟨s, _⟩ => names s
  | "WhileStatement" =>
    namesIn j "condition" ++ (j.parts "body").flatMap fun ⟨s, _⟩ => names s
  | "IfStatement" =>
    namesIn j "condition" ++ ((j.parts "then_body").flatMap fun ⟨s, _⟩ => names s) ++
      (j.parts "else_body").flatMap fun ⟨s, _⟩ => names s
  | "IfGotoStatement" => namesIn j "condition"
  | "Condition" | "BinaryOp" => namesIn j "left" ++ namesIn j "right"
  | "Variable" => [text j "name"]
  | _ => []
termination_by 2 * sizeOf j + 1
where
  /-- The variables in the part `name` of a node. -/
  namesIn (j : Json) (name : String) : List String :=
    match j.part? name with
    | some ⟨v, _⟩ => names v
    | none => []
  termination_by 2 * sizeOf j

/-! ### Places that cannot be reached -/

/-- Whether a value counts as nothing where a second block may stand. -/
def isNothing : Json → Bool
  | .null | .bool false | .int 0 | .str "" | .arr [] => true
  | .decimal d => d.digits = 0
  | _ => false

/-- What is wrong with the block in the field `name` of a node, if it has no elements to look at. -/
def unlisted? (j : Json) (name : String) : Option Foreign :=
  match j.field? name with
  | none | some (.arr _) | some (.str _) => none
  | some v => some (.unlisted (kind v))

/-- What is wrong with the two blocks of a case distinction, if they are not of one kind. -/
def unjoined? (j : Json) : Option Foreign :=
  let first := (j.field? "then_body").getD (.arr [])
  let second := (j.field? "else_body").getD .null
  match first, if isNothing second then .arr [] else second with
  | .arr _, .arr _ | .str _, .str _ => none
  | first, second => some (.unjoined (kind first) (kind second))

/-- What is found at the first place in a node of any kind that bars the way to the variables. -/
def unreachable? (j : Json) : Option Foreign :=
  match kind j with
  | "LoopProgram" | "WhileProgram" => (unlisted? j "statements").or (inBlock j "statements")
  | "GotoProgram" =>
    match j.field? "instructions" with
    | some (.str s) => if s.isEmpty then none else some (.missing (kind (.str s)) "statement")
    | _ =>
      (unlisted? j "instructions").or <|
        (j.parts "instructions").findSome? fun ⟨i, _⟩ =>
          if kind i = "Instruction" then
            match i.part? "statement" with
            | some ⟨s, _⟩ => unreachable? s
            | none => none
          else some (.missing (kind i) "statement")
  | "AssignStatement" => inPart j "expr"
  | "LoopStatement" => (unlisted? j "body").or (inBlock j "body")
  | "WhileStatement" =>
    ((inPart j "condition").or (unlisted? j "body")).or (inBlock j "body")
  | "IfStatement" =>
    ((inPart j "condition").or (unjoined? j)).or
      ((inBlock j "then_body").or (inBlock j "else_body"))
  | "IfGotoStatement" => inPart j "condition"
  | "Condition" | "BinaryOp" => (inPart j "left").or (inPart j "right")
  | _ => none
termination_by 2 * sizeOf j + 1
where
  /-- What bars the way in the part `name` of a node. -/
  inPart (j : Json) (name : String) : Option Foreign :=
    match j.part? name with
    | some ⟨v, _⟩ => unreachable? v
    | none => none
  termination_by 2 * sizeOf j
  /-- What bars the way in the block `name` of a node. -/
  inBlock (j : Json) (name : String) : Option Foreign :=
    (j.parts name).findSome? fun ⟨s, _⟩ => unreachable? s
  termination_by 2 * sizeOf j

end Tree

end CounterPrograms
