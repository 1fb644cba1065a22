import CounterPrograms.Proofs.Program.Tree.NormalForm

/-!
# Nodes of any kind

A `Node` is an expression, a condition, a statement, an instruction or a program.  `Node.ofJson?`
reads one from a value without being told what it is.  If nothing in a node is foreign, it is read
back from what is written for it, so that different nodes are written as different values
(`Node.toJson_faithful`).
-/

namespace CounterPrograms

open Json (Same)

/-- A node of a tree. -/
inductive Node
  | expr (e : Expr)
  | condition (c : Condition)
  | statement (s : Stmt)
  | instruction (i : Instruction)
  | program (p : Program)
deriving DecidableEq, Repr

namespace Node

/-- How a node is written. -/
def toJson : Node → Json
  | expr e => e.toJson
  | condition c => c.toJson
  | statement s => s.toJson
  | instruction i => i.toJson
  | program p => p.toJson

/-- A node in which nothing is foreign. -/
def Native : Node → Prop
  | expr e => e.Native
  | condition c => c.Native
  | statement s => s.Native
  | instruction i => i.statement.Native
  | program p => p.Native

/-- The node that a value denotes, if its kind is the kind of a node. -/
def ofJson? (j : Json) : Option Node :=
  match Tree.kind j with
  | "Number" | "Variable" | "BinaryOp" => some (.expr (Expr.ofJson j))
  | "Condition" => some (.condition (Condition.ofJson j))
  | "AssignStatement" | "LoopStatement" | "WhileStatement" | "IfStatement" | "GotoStatement"
  | "IfGotoStatement" | "HaltStatement" => some (.statement (Stmt.ofJson j))
  | "Instruction" => some (.instruction (Tree.instruction j))
  | "LoopProgram" | "WhileProgram" | "GotoProgram" => (Program.ofJson j).toOption.map .program
  | _ => none

/-- What is written for a node in which nothing is foreign is its own normal form. -/
theorem normal_toJson {n : Node} (hn : n.Native) : Tree.normal n.toJson = n.toJson := by
  cases n with
  | expr e => exact (Expr.isNormal_toJson hn).normal_eq
  | condition c => exact (Condition.isNormal_toJson hn).normal_eq
  | statement s => exact (Stmt.isNormal_toJson hn).normal_eq
  | instruction i => exact (Instruction.isNormal_toJson hn).normal_eq
  | program p => exact (Program.isNormal_toJson hn).normal_eq

theorem ofJson?_of_same {n : Node} (hn : n.Native) {j : Json} (h : Same n.toJson j) :
    ofJson? j = some n := by
  cases n with
  | expr e =>
      have hread : Expr.ofJson j = e := Expr.ofJson_of_same hn h
      cases e with
      | num | var | binary =>
          unfold ofJson?
          simp only [Tree.kind_of_same h, hread]
      | foreign => exact hn.elim
  | condition c =>
      unfold ofJson?
      simp only [Tree.kind_of_same h, Condition.ofJson_of_same hn h]
  | statement s =>
      have hread : Stmt.ofJson j = s := Stmt.ofJson_of_same hn h
      cases s with
      | ifThen c t e =>
          cases e with
          | none | some =>
              unfold ofJson?
              simp only [Tree.kind_of_same h, hread]
      | assign | loop | whileDo | goto | ifGoto | halt =>
          unfold ofJson?
          simp only [Tree.kind_of_same h, hread]
      | foreign => exact hn.elim
  | instruction i =>
      unfold ofJson?
      simp only [Tree.kind_of_same h, Tree.instruction_of_same hn h]
  | program p =>
      have hread : Program.ofJson j = .ok p := Program.ofJson_of_same hn h
      cases p with
      | loop | whileDo | goto =>
          unfold ofJson?
          simp only [Tree.kind_of_same h, hread, Except.toOption, Option.map_some]

/-- What is written for a node in which nothing is foreign is in normal form, and is read as that
node, however the fields are ordered.  So two such nodes are written as the same value only if they
are equal. -/
theorem toJson_faithful {n : Node} (hn : n.Native) :
    Tree.normal n.toJson = n.toJson ∧
    (∀ j, Same n.toJson j → ofJson? j = some n) ∧
    ∀ m : Node, m.Native → (Same n.toJson m.toJson ↔ n = m) := by
  refine ⟨normal_toJson hn, fun j h => ofJson?_of_same hn h, ?_⟩
  intro m hm
  constructor
  · intro h
    have hread : ofJson? m.toJson = some n := ofJson?_of_same hn h
    have hown : ofJson? m.toJson = some m := ofJson?_of_same hm (.refl m.toJson)
    exact Option.some.inj (hread.symm.trans hown)
  · intro h
    rw [h]
    exact .refl m.toJson

/-- An alternative that is empty is told from one that is missing. -/
theorem toJson_faithful_alternatives :
    ∃ n m : Node,
      n = statement (.ifThen ⟨.var "x", "<", .num (-1)⟩ [.loop "y" []] (some [])) ∧
      m = statement (.ifThen ⟨.var "x", "<", .num (-1)⟩ [.loop "y" []] none) ∧
      n.Native ∧ m.Native ∧ ofJson? n.toJson = some n ∧ ¬ Same n.toJson m.toJson := by
  refine ⟨_, _, rfl, rfl, ?_⟩
  have hc : Condition.Native ⟨.var "x", "<", .num (-1)⟩ := ⟨trivial, trivial⟩
  have hn : (statement (.ifThen _ [.loop "y" []] (some []))).Native :=
    ⟨hc, ⟨trivial, trivial⟩, trivial⟩
  have hm : (statement (.ifThen _ [.loop "y" []] none)).Native := ⟨hc, trivial, trivial⟩
  obtain ⟨_, hread, hsame⟩ := toJson_faithful hn
  refine ⟨hn, hm, hread _ (.refl _), fun h => ?_⟩
  cases (hsame _ hm).mp h

end Node

end CounterPrograms
