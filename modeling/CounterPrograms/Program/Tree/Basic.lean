import CounterPrograms.Json.Display

/-!
# Programs as JSON trees

A node is an object whose field `type` names its kind and whose other fields are its parts.  A part
that may be missing is left out when it is missing, so a condition without alternative has no field
`else_body`, while one with an empty alternative has an empty array there.  A block that is left out
is an empty one.

The functions here work on any value: `Tree.display` shows it by the kinds and parts of the nodes in
it, and `Tree.normal` marks what is no node where a node is listed.
-/

namespace CounterPrograms

namespace Tree

/-- The name of the kind of a value: the type of a node, or the kind of a value that is no node. -/
def kind : Json → String
  | .obj fields =>
    match fields.lookup "type" with
    | some (.str s) => s
    | _ => ""
  | .str _ => "str"
  | .null => "NoneType"
  | .bool _ => "bool"
  | .int _ => "int"
  | .decimal _ | .nonFinite _ => "float"
  | .arr _ => "list"

/-- A node of the given kind. -/
def node (kind : String) (fields : List (String × Json)) : Json :=
  .obj (("type", .str kind) :: fields)

/-! ### In messages -/

/-- The names of the parts of a node of the given kind, in the order in which they are shown. -/
def partNames? : String → Option (List String)
  | "Number" => some ["value"]
  | "Variable" => some ["name"]
  | "BinaryOp" | "Condition" => some ["left", "op", "right"]
  | "AssignStatement" => some ["var", "expr"]
  | "LoopStatement" => some ["counter", "body"]
  | "WhileStatement" => some ["condition", "body"]
  | "IfStatement" => some ["condition", "then_body", "else_body"]
  | "GotoStatement" => some ["target"]
  | "IfGotoStatement" => some ["condition", "target"]
  | "HaltStatement" => some []
  | "Instruction" => some ["statement", "label"]
  | "LoopProgram" | "WhileProgram" => some ["statements"]
  | "GotoProgram" => some ["instructions"]
  | _ => none

/-- The parts that are empty lists if they are missing. -/
def blockNames : List String := ["body", "then_body", "statements", "instructions"]

/-- How a part that is missing is shown: a block as an empty one, everything else as null. -/
def absentText (name : String) : String :=
  Json.display (if name ∈ blockNames then .arr [] else .null)

/-- How a node with the given parts is shown, each part after its name. -/
def nodeText (kind : String) (names : List String) (shown : List (String × String)) : String :=
  let parts := names.map fun name => name ++ "=" ++ (shown.lookup name).getD (absentText name)
  kind ++ "(" ++ ", ".intercalate parts ++ ")"

mutual

/-- How a message shows a value of a tree: nodes by their kinds and parts, everything else as
elsewhere. -/
def display : Json → String
  | .obj fields =>
    let kind := kind (.obj fields)
    match partNames? kind with
    | some names => nodeText kind names (displayParts fields)
    | none => Json.display (.obj fields)
  | .arr elements => "[" ++ ", ".intercalate (displayElements elements) ++ "]"
  | j => j.display
termination_by structural j => j

/-- How a message shows the elements of a list in a tree. -/
def displayElements : List Json → List String
  | [] => []
  | j :: rest => display j :: displayElements rest
termination_by structural js => js

/-- How a message shows the parts of a node, each with its name. -/
def displayParts : List (String × Json) → List (String × String)
  | [] => []
  | (name, j) :: rest => (name, display j) :: displayParts rest
termination_by structural fs => fs

end

/-- A value of a tree as plain text: a text as it is, everything else as in messages. -/
def plain : Json → String
  | .str s => s
  | j => display j

/-- The text in the field `name` of a node. -/
def text (j : Json) (name : String) : String :=
  (j.field? name).elim "" plain

/-! ### Normal form -/

/-- What stands for a value that is no node in a list of nodes. -/
def unknown (j : Json) : Json :=
  node "Unknown" [("value", .str (plain j))]

/-- The blocks that belong to a node with the given fields and are not among them, as empty ones. -/
def absentBlocks (fields : List (String × Json)) : List (String × Json) :=
  let names := (partNames? (kind (.obj fields))).getD []
  (names.filter fun name => name ∈ blockNames ∧ (fields.lookup name).isNone).map fun name =>
    (name, .arr [])

mutual

/-- The normal form of a node: parts that are null are left out, blocks that were left out are
there, and whatever is no node where a node is listed is marked as unknown. -/
def normal : Json → Json
  | .obj fields => .obj (normalFields fields ++ absentBlocks fields)
  | j => unknown j
termination_by structural j => j

/-- The normal form of the parts of a node. -/
def normalFields : List (String × Json) → List (String × Json)
  | [] => []
  | (_, .null) :: rest => normalFields rest
  | (name, .arr elements) :: rest => (name, .arr (normalList elements)) :: normalFields rest
  | (name, .obj fields) :: rest =>
    (name, .obj (normalFields fields ++ absentBlocks fields)) :: normalFields rest
  | (name, .decimal d) :: rest => (name, unknown (.decimal d)) :: normalFields rest
  | (name, .nonFinite x) :: rest => (name, unknown (.nonFinite x)) :: normalFields rest
  | (name, j) :: rest => (name, j) :: normalFields rest
termination_by structural fs => fs

/-- The normal forms of the elements of a list. -/
def normalList : List Json → List Json
  | [] => []
  | j :: rest => normal j :: normalList rest
termination_by structural js => js

end

end Tree

end CounterPrograms
