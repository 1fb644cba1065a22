import CounterPrograms.Proofs.Program.Tree

/-!
# What is written is in normal form

`Tree.normal` leaves a node as it is that was written for a tree in which nothing is foreign: no
part of it is null, no block is left out, and wherever a node is listed there is one.
-/

namespace CounterPrograms

namespace Tree

variable {j : Json} {k name : String} {fields rest : List (String × Json)}

/-- An object that is its own normal form. -/
structure IsNormal (j : Json) : Prop where
  isObject : ∃ fields, j = .obj fields
  normal_eq : normal j = j

theorem isNormal_node (hfields : normalFields fields = fields)
    (hblocks : absentBlocks (("type", .str k) :: fields) = []) : IsNormal (node k fields) := by
  refine ⟨⟨_, rfl⟩, ?_⟩
  unfold node normal
  rw [hblocks, List.append_nil]
  unfold normalFields
  rw [hfields]

theorem normalFields_cons (h : IsNormal j) :
    normalFields ((name, j) :: rest) = (name, j) :: normalFields rest := by
  obtain ⟨⟨fields, rfl⟩, hnormal⟩ := h
  unfold normal at hnormal
  conv_lhs => unfold normalFields
  rw [hnormal]

theorem normalFields_cons_arr {elements : List Json} (h : normalList elements = elements) :
    normalFields ((name, .arr elements) :: rest) = (name, .arr elements) :: normalFields rest := by
  conv_lhs => unfold normalFields
  rw [h]

theorem normalFields_cons_str (s : String) :
    normalFields ((name, .str s) :: rest) = (name, .str s) :: normalFields rest := rfl

theorem normalFields_nil : normalFields [] = [] := rfl

theorem normalList_eq {elements : List Json} (h : ∀ j ∈ elements, IsNormal j) :
    normalList elements = elements := by
  induction elements with
  | nil => rfl
  | cons j rest ih =>
      unfold normalList
      rw [(h j List.mem_cons_self).normal_eq, ih fun k hk => h k (List.mem_cons_of_mem j hk)]

end Tree

open CounterPrograms.Tree

theorem Expr.isNormal_toJson {e : Expr} (he : e.Native) : IsNormal e.toJson := by
  induction e with
  | num n => exact isNormal_node rfl rfl
  | var x => exact isNormal_node rfl rfl
  | binary l op r ihl ihr =>
      refine isNormal_node ?_ rfl
      rw [normalFields_cons (ihl he.1), normalFields_cons_str, normalFields_cons (ihr he.2),
        normalFields_nil]
  | foreign f => exact he.elim

theorem Condition.isNormal_toJson {c : Condition} (hc : c.Native) : IsNormal c.toJson := by
  refine isNormal_node ?_ rfl
  rw [normalFields_cons (Expr.isNormal_toJson hc.left), normalFields_cons_str,
    normalFields_cons (Expr.isNormal_toJson hc.right), normalFields_nil]

theorem Stmt.isNormal_of_mem_toJsonList {ss : List Stmt} (hss : NativeBlock ss) :
    ∀ j ∈ toJsonList ss, IsNormal j := by
  induction ss using blockInduction with
  | nil => exact List.forall_mem_nil _
  | assign x e rest ih =>
      refine List.forall_mem_cons.mpr ⟨isNormal_node ?_ rfl, ih hss.2⟩
      rw [normalFields_cons_str, normalFields_cons (Expr.isNormal_toJson hss.1), normalFields_nil]
  | loop x body rest ihb ihr =>
      refine List.forall_mem_cons.mpr ⟨isNormal_node ?_ rfl, ihr hss.2⟩
      rw [normalFields_cons_str, normalFields_cons_arr (normalList_eq (ihb hss.1)),
        normalFields_nil]
  | whileDo c body rest ihb ihr =>
      refine List.forall_mem_cons.mpr ⟨isNormal_node ?_ rfl, ihr hss.2⟩
      rw [normalFields_cons (Condition.isNormal_toJson hss.1.1),
        normalFields_cons_arr (normalList_eq (ihb hss.1.2)), normalFields_nil]
  | ifThen c t rest iht ihr =>
      refine List.forall_mem_cons.mpr ⟨isNormal_node ?_ rfl, ihr hss.2⟩
      rw [normalFields_cons (Condition.isNormal_toJson hss.1.1),
        normalFields_cons_arr (normalList_eq (iht hss.1.2)), normalFields_nil]
  | ifElse c t e rest iht ihe ihr =>
      refine List.forall_mem_cons.mpr ⟨isNormal_node ?_ rfl, ihr hss.2⟩
      rw [normalFields_cons (Condition.isNormal_toJson hss.1.1),
        normalFields_cons_arr (normalList_eq (iht hss.1.2.1)),
        normalFields_cons_arr (normalList_eq (ihe hss.1.2.2)), normalFields_nil]
  | goto l rest ih => exact List.forall_mem_cons.mpr ⟨isNormal_node rfl rfl, ih hss.2⟩
  | ifGoto c l rest ih =>
      refine List.forall_mem_cons.mpr ⟨isNormal_node ?_ rfl, ih hss.2⟩
      rw [normalFields_cons (Condition.isNormal_toJson hss.1), normalFields_cons_str,
        normalFields_nil]
  | halt rest ih => exact List.forall_mem_cons.mpr ⟨isNormal_node rfl rfl, ih hss.2⟩
  | foreign f rest ih => exact hss.1.elim

theorem Stmt.isNormal_toJson {s : Stmt} (hs : s.Native) : IsNormal s.toJson := by
  have hblock : NativeBlock [s] := ⟨hs, trivial⟩
  exact isNormal_of_mem_toJsonList hblock _ List.mem_cons_self

theorem Instruction.isNormal_toJson {i : Instruction} (hi : i.statement.Native) :
    IsNormal i.toJson := by
  obtain ⟨statement, label⟩ := i
  cases label with
  | none =>
      refine isNormal_node ?_ rfl
      rw [normalFields_cons (Stmt.isNormal_toJson hi), normalFields_nil]
  | some l =>
      refine isNormal_node ?_ rfl
      rw [normalFields_cons (Stmt.isNormal_toJson hi), normalFields_cons_str, normalFields_nil]

theorem Program.isNormal_toJson {p : Program} (hp : p.Native) : IsNormal p.toJson := by
  cases p with
  | loop ss | whileDo ss =>
      refine isNormal_node ?_ rfl
      rw [normalFields_cons_arr (normalList_eq (Stmt.isNormal_of_mem_toJsonList hp)),
        normalFields_nil]
  | goto is =>
      have his : ∀ j ∈ is.map Instruction.toJson, IsNormal j :=
        List.forall_mem_map.mpr fun i hi => Instruction.isNormal_toJson (hp i hi)
      refine isNormal_node ?_ rfl
      rw [normalFields_cons_arr (normalList_eq his), normalFields_nil]

end CounterPrograms
