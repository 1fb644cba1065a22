import CounterPrograms.Program.Tree.Reader
import CounterPrograms.Program.Tree.Writer
import CounterPrograms.Proofs.Json.Same
import CounterPrograms.Proofs.Program.Block
import Mathlib.Data.List.TakeWhile

/-!
# Reading back what was written

A tree in which nothing is foreign is `Native`: every part of it is of the kind that belongs there.
Such a tree is written as a value from which it can be read back, whatever the order of the fields
(`Expr.ofJson_of_same`, `Condition.ofJson_of_same`, `Stmt.map_ofJson_of_same`,
`Tree.instruction_of_same`, `Program.ofJson_of_same`).
-/

namespace CounterPrograms

open Json (Same)

/-! ### Trees without foreign parts -/

/-- An expression in which nothing is foreign. -/
def Expr.Native : Expr → Prop
  | num _ | var _ => True
  | binary left _ right => left.Native ∧ right.Native
  | foreign _ => False

/-- A condition in which nothing is foreign. -/
structure Condition.Native (c : Condition) : Prop where
  left : c.left.Native
  right : c.right.Native

mutual

/-- A statement in which nothing is foreign. -/
def Stmt.Native : Stmt → Prop
  | .assign _ value => value.Native
  | .loop _ body => Stmt.NativeBlock body
  | .whileDo condition body => condition.Native ∧ Stmt.NativeBlock body
  | .ifThen condition thenBody none => condition.Native ∧ Stmt.NativeBlock thenBody
  | .ifThen condition thenBody (some elseBody) =>
    condition.Native ∧ Stmt.NativeBlock thenBody ∧ Stmt.NativeBlock elseBody
  | .goto _ => True
  | .ifGoto condition _ => condition.Native
  | .halt => True
  | .foreign _ => False
termination_by structural s => s

/-- A block in which nothing is foreign. -/
def Stmt.NativeBlock : List Stmt → Prop
  | [] => True
  | s :: rest => s.Native ∧ Stmt.NativeBlock rest
termination_by structural ss => ss

end

/-- A program in which nothing is foreign. -/
def Program.Native : Program → Prop
  | loop statements | whileDo statements => Stmt.NativeBlock statements
  | goto instructions => ∀ i ∈ instructions, i.statement.Native

/-! ### Expressions and conditions -/

theorem Expr.ofJson_binary {j l r : Json} (hk : Tree.kind j = "BinaryOp")
    (hl : j.field? "left" = some l) (hr : j.field? "right" = some r) :
    Expr.ofJson j = .binary (Expr.ofJson l) (Tree.text j "op") (Expr.ofJson r) := by
  obtain ⟨⟨l', hl'⟩, hpl, rfl⟩ := Option.map_eq_some_iff.mp ((Json.part?_val j "left").trans hl)
  obtain ⟨⟨r', hr'⟩, hpr, rfl⟩ := Option.map_eq_some_iff.mp ((Json.part?_val j "right").trans hr)
  rw [Expr.ofJson]
  simp only [hk, hpl, hpr]

theorem Expr.ofJson_of_same {e : Expr} (he : e.Native) {j : Json} (h : Same e.toJson j) :
    Expr.ofJson j = e := by
  induction e generalizing j with
  | num n =>
      have hk : Tree.kind j = "Number" := Tree.kind_of_same h
      have hv : j.field? "value" = some (.int n) := h.field?_int rfl
      rw [Expr.ofJson]
      simp [hk, hv, Json.int?]
  | var x =>
      have hk : Tree.kind j = "Variable" := Tree.kind_of_same h
      have hx : Tree.text j "name" = x := Tree.text_of_field? (h.field?_str rfl)
      rw [Expr.ofJson]
      simp only [hk, hx]
  | binary l op r ihl ihr =>
      have hop : Tree.text j "op" = op := Tree.text_of_field? (h.field?_str rfl)
      obtain ⟨l', hl, hsl⟩ := h.exists_field? "left" rfl
      obtain ⟨r', hr, hsr⟩ := h.exists_field? "right" rfl
      rw [Expr.ofJson_binary (Tree.kind_of_same h) hl hr, ihl he.1 hsl, ihr he.2 hsr, hop]
  | foreign f => exact he.elim

theorem Condition.ofJson_of_same {c : Condition} (hc : c.Native) {j : Json}
    (h : Same c.toJson j) : Condition.ofJson j = c := by
  have hk : Tree.kind j = "Condition" := Tree.kind_of_same h
  have hop : Tree.text j "op" = c.op := Tree.text_of_field? (h.field?_str rfl)
  obtain ⟨l, hl, hsl⟩ := h.exists_field? "left" rfl
  obtain ⟨r, hr, hsr⟩ := h.exists_field? "right" rfl
  unfold Condition.ofJson
  simp only [hk, hl, hr, hop, Option.getD_some]
  rw [Expr.ofJson_of_same hc.left hsl, Expr.ofJson_of_same hc.right hsr]

/-! ### Statements -/

theorem Json.map_val_parts {j : Json} {name : String} {elements : List Json}
    (h : j.field? name = some (.arr elements)) :
    (j.parts name).map Subtype.val = elements := by
  obtain ⟨⟨a, ha⟩, hp, rfl⟩ := Option.map_eq_some_iff.mp ((Json.part?_val j name).trans h)
  unfold Json.parts
  rw [hp, List.map_map]
  exact Json.items_val elements

namespace Stmt

variable {j : Json} {name : String} {elements : List Json}

/-- Where there is a list, there are no strays, and it is read statement by statement. -/
theorem map_parts_append_strays (h : j.field? name = some (.arr elements)) :
    ((j.parts name).map fun s => Stmt.ofJson s.1) ++ strays j name =
      elements.map Stmt.ofJson := by
  have hstrays : strays j name = [] := by
    unfold strays
    rw [h]
  have hparts : ((j.parts name).map fun s => Stmt.ofJson s.1) =
      ((j.parts name).map Subtype.val).map Stmt.ofJson := by
    rw [List.map_map]
    rfl
  rw [hstrays, List.append_nil, hparts, Json.map_val_parts h]

/-- The nodes of the block are read as the block, however their fields are ordered. -/
def ReadBack (ss : List Stmt) : Prop :=
  ∀ ys, List.Forall₂ Same (Stmt.toJsonList ss) ys → ys.map Stmt.ofJson = ss

theorem readBack_cons {s : Stmt} {rest : List Stmt}
    (hs : ∀ j, Same s.toJson j → Stmt.ofJson j = s) (hrest : ReadBack rest) :
    ReadBack (s :: rest) := by
  intro ys hys
  cases hys with
  | cons hy hys => rw [List.map_cons, hs _ hy, hrest _ hys]

theorem exists_block {k : Json} {ss : List Stmt} (h : Same j k) (name : String)
    (hj : j.field? name = some (.arr (Stmt.toJsonList ss))) (hss : ReadBack ss) :
    ∃ ys, k.field? name = some (.arr ys) ∧ ys.map Stmt.ofJson = ss := by
  obtain ⟨ys, hk, hys⟩ := h.field?_arr hj
  exact ⟨ys, hk, hss ys hys⟩

theorem exists_condition {k : Json} {c : Condition} (h : Same j k)
    (hj : j.field? "condition" = some c.toJson) (hc : c.Native) :
    ∃ v, k.field? "condition" = some v ∧ Condition.ofJson v = c := by
  obtain ⟨v, hk, hv⟩ := h.exists_field? "condition" hj
  exact ⟨v, hk, Condition.ofJson_of_same hc hv⟩

theorem ofJson_assign {x : String} {e : Expr} (he : e.Native)
    (h : Same (Stmt.assign x e).toJson j) : Stmt.ofJson j = .assign x e := by
  have hk : Tree.kind j = "AssignStatement" := Tree.kind_of_same h
  have hx : Tree.text j "var" = x := Tree.text_of_field? (h.field?_str rfl)
  obtain ⟨v, hv, hsame⟩ := h.exists_field? "expr" rfl
  rw [Stmt.ofJson]
  simp only [hk, hx, hv, Option.getD_some]
  rw [Expr.ofJson_of_same he hsame]

theorem listOfJson_of_field? (h : j.field? name = some (.arr elements)) :
    listOfJson j name = elements.map Stmt.ofJson := by
  unfold listOfJson strays
  simp only [h, Option.bind_some, Json.arr?, Option.getD_some, List.append_nil]

theorem ofJson_loop {x : String} {body : List Stmt} (hbody : ReadBack body)
    (h : Same (Stmt.loop x body).toJson j) : Stmt.ofJson j = .loop x body := by
  have hk : Tree.kind j = "LoopStatement" := Tree.kind_of_same h
  have hx : Tree.text j "counter" = x := Tree.text_of_field? (h.field?_str rfl)
  obtain ⟨ys, hys, hread⟩ := exists_block h "body" rfl hbody
  rw [Stmt.ofJson]
  simp only [hk, hx]
  rw [map_parts_append_strays hys, hread]

theorem ofJson_whileDo {c : Condition} {body : List Stmt} (hc : c.Native) (hbody : ReadBack body)
    (h : Same (Stmt.whileDo c body).toJson j) : Stmt.ofJson j = .whileDo c body := by
  have hk : Tree.kind j = "WhileStatement" := Tree.kind_of_same h
  obtain ⟨v, hv, hcond⟩ := exists_condition h rfl hc
  obtain ⟨ys, hys, hread⟩ := exists_block h "body" rfl hbody
  rw [Stmt.ofJson]
  simp only [hk, hv, Option.getD_some, hcond]
  rw [map_parts_append_strays hys, hread]

/-- An alternative that is missing is not an empty one. -/
theorem ofJson_ifThen {c : Condition} {t : List Stmt} (hc : c.Native) (ht : ReadBack t)
    (h : Same (Stmt.ifThen c t none).toJson j) : Stmt.ofJson j = .ifThen c t none := by
  have hk : Tree.kind j = "IfStatement" := Tree.kind_of_same h
  have helse : j.present? "else_body" = none := by
    unfold Json.present?
    rw [h.field?_eq_none rfl]
  obtain ⟨v, hv, hcond⟩ := exists_condition h rfl hc
  obtain ⟨ys, hys, hread⟩ := exists_block h "then_body" rfl ht
  rw [Stmt.ofJson]
  simp only [hk, hv, Option.getD_some, hcond, helse]
  rw [map_parts_append_strays hys, hread]

theorem ofJson_ifElse {c : Condition} {t e : List Stmt} (hc : c.Native) (ht : ReadBack t)
    (he : ReadBack e) (h : Same (Stmt.ifThen c t (some e)).toJson j) :
    Stmt.ofJson j = .ifThen c t (some e) := by
  have hk : Tree.kind j = "IfStatement" := Tree.kind_of_same h
  obtain ⟨v, hv, hcond⟩ := exists_condition h rfl hc
  obtain ⟨ys, hys, hread⟩ := exists_block h "then_body" rfl ht
  obtain ⟨zs, hzs, hread'⟩ := exists_block h "else_body" rfl he
  have helse : j.present? "else_body" = some (.arr zs) := by
    unfold Json.present?
    rw [hzs]
  rw [Stmt.ofJson]
  simp only [hk, hv, Option.getD_some, hcond, helse]
  rw [map_parts_append_strays hys, hread, map_parts_append_strays hzs, hread']

theorem ofJson_goto {l : String} (h : Same (Stmt.goto l).toJson j) : Stmt.ofJson j = .goto l := by
  have hk : Tree.kind j = "GotoStatement" := Tree.kind_of_same h
  have hl : Tree.text j "target" = l := Tree.text_of_field? (h.field?_str rfl)
  rw [Stmt.ofJson]
  simp only [hk, hl]

theorem ofJson_ifGoto {c : Condition} {l : String} (hc : c.Native)
    (h : Same (Stmt.ifGoto c l).toJson j) : Stmt.ofJson j = .ifGoto c l := by
  have hk : Tree.kind j = "IfGotoStatement" := Tree.kind_of_same h
  have hl : Tree.text j "target" = l := Tree.text_of_field? (h.field?_str rfl)
  obtain ⟨v, hv, hcond⟩ := exists_condition h rfl hc
  rw [Stmt.ofJson]
  simp only [hk, hl, hv, Option.getD_some, hcond]

theorem ofJson_halt (h : Same Stmt.halt.toJson j) : Stmt.ofJson j = .halt := by
  have hk : Tree.kind j = "HaltStatement" := Tree.kind_of_same h
  rw [Stmt.ofJson]
  simp only [hk]

/-- What is written for a block in which nothing is foreign is read as that block. -/
theorem readBack_of_native {ss : List Stmt} (hss : NativeBlock ss) : ReadBack ss := by
  induction ss using blockInduction with
  | nil =>
      intro ys hys
      cases hys
      rfl
  | assign x e rest ih =>
      apply readBack_cons _ (ih hss.2)
      intro j h
      exact ofJson_assign hss.1 h
  | loop x body rest ihb ihr =>
      apply readBack_cons _ (ihr hss.2)
      intro j h
      exact ofJson_loop (ihb hss.1) h
  | whileDo c body rest ihb ihr =>
      apply readBack_cons _ (ihr hss.2)
      intro j h
      exact ofJson_whileDo hss.1.1 (ihb hss.1.2) h
  | ifThen c t rest iht ihr =>
      apply readBack_cons _ (ihr hss.2)
      intro j h
      exact ofJson_ifThen hss.1.1 (iht hss.1.2) h
  | ifElse c t e rest iht ihe ihr =>
      apply readBack_cons _ (ihr hss.2)
      intro j h
      exact ofJson_ifElse hss.1.1 (iht hss.1.2.1) (ihe hss.1.2.2) h
  | goto l rest ih =>
      apply readBack_cons _ (ih hss.2)
      intro j h
      exact ofJson_goto h
  | ifGoto c l rest ih =>
      apply readBack_cons _ (ih hss.2)
      intro j h
      exact ofJson_ifGoto hss.1 h
  | halt rest ih =>
      apply readBack_cons _ (ih hss.2)
      intro j h
      exact ofJson_halt h
  | foreign f rest ih => exact hss.1.elim

theorem ofJson_of_same {s : Stmt} (hs : s.Native) (h : Same s.toJson j) : Stmt.ofJson j = s := by
  have hblock : NativeBlock [s] := ⟨hs, trivial⟩
  have hread : [j].map Stmt.ofJson = [s] := readBack_of_native hblock [j] (.cons h .nil)
  exact List.singleton_injective hread

end Stmt

/-! ### Instructions and programs -/

namespace Tree

/-- A label that is missing is not an empty one. -/
theorem instruction_of_same {i : Instruction} (hi : i.statement.Native) {j : Json}
    (h : Same i.toJson j) : instruction j = i := by
  obtain ⟨statement, label⟩ := i
  obtain ⟨v, hv, hsame⟩ := h.exists_field? "statement" rfl
  unfold instruction
  rw [hv, Option.getD_some, Stmt.ofJson_of_same hi hsame]
  cases label with
  | none =>
      have hl : j.present? "label" = none := by
        unfold Json.present?
        rw [h.field?_eq_none rfl]
      rw [hl, Option.bind_none]
  | some l =>
      have hl : j.present? "label" = some (.str l) := by
        unfold Json.present?
        rw [h.field?_str rfl]
      rw [hl, Option.bind_some, Json.str?]

theorem map_instruction_of_same {is : List Instruction} (his : ∀ i ∈ is, i.statement.Native)
    {ys : List Json} (h : List.Forall₂ Same (is.map Instruction.toJson) ys) :
    ys.all isInstruction ∧ ys.map instruction = is := by
  induction is generalizing ys with
  | nil =>
      cases h
      exact ⟨rfl, rfl⟩
  | cons i is ih =>
      cases h with
      | cons hy hys =>
          obtain ⟨hall, hmap⟩ := ih (fun k hk => his k (List.mem_cons_of_mem i hk)) hys
          have hkind : isInstruction _ = true := decide_eq_true (kind_of_same hy)
          have hi := instruction_of_same (his i List.mem_cons_self) hy
          exact ⟨by rw [List.all_cons, hkind, hall, Bool.and_true], by rw [List.map_cons, hi, hmap]⟩

theorem instructions_of_all {j : Json} {elements : List Json}
    (h : j.field? "instructions" = some (.arr elements)) (hall : elements.all isInstruction) :
    instructions j = elements.map instruction := by
  have hstray : strayInstruction? j "label" = none := by
    unfold strayInstruction?
    simp only [h, Option.map_eq_none_iff, List.find?_eq_none]
    intro e he
    simp [List.all_eq_true.mp hall e he]
  have htake : elements.takeWhile isInstruction = elements :=
    List.takeWhile_eq_self_iff.mpr (List.all_eq_true.mp hall)
  unfold instructions
  rw [hstray]
  simp only [properInstructions, h, Option.bind_some, Json.arr?, Option.getD_some, htake]

end Tree

namespace Program

theorem ofJson_of_same {p : Program} (hp : p.Native) {j : Json} (h : Same p.toJson j) :
    ofJson j = .ok p := by
  cases p with
  | loop ss =>
      have hk : Tree.kind j = "LoopProgram" := Tree.kind_of_same h
      obtain ⟨ys, hys, hread⟩ := Stmt.exists_block h "statements" rfl (Stmt.readBack_of_native hp)
      unfold ofJson
      simp only [hk]
      rw [Stmt.listOfJson_of_field? hys, hread]
  | whileDo ss =>
      have hk : Tree.kind j = "WhileProgram" := Tree.kind_of_same h
      obtain ⟨ys, hys, hread⟩ := Stmt.exists_block h "statements" rfl (Stmt.readBack_of_native hp)
      unfold ofJson
      simp only [hk]
      rw [Stmt.listOfJson_of_field? hys, hread]
  | goto is =>
      have hk : Tree.kind j = "GotoProgram" := Tree.kind_of_same h
      have hlist : (goto is).toJson.field? "instructions" =
          some (.arr (is.map Instruction.toJson)) := rfl
      obtain ⟨ys, hys, hsame⟩ := h.field?_arr hlist
      obtain ⟨hall, hmap⟩ := Tree.map_instruction_of_same hp hsame
      unfold ofJson
      simp only [hk]
      rw [Tree.instructions_of_all hys hall, hmap]

end Program

end CounterPrograms
