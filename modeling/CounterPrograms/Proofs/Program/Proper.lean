import CounterPrograms.Proofs.Program.Block
import CounterPrograms.Proofs.Program.WellFormed
import CounterPrograms.Proofs.Run.Goto

/-!
# Programs that were read are proper

What can be written has a meaning: well-formed expressions and conditions are proper, and the
statements of a program that was read from a text are blocks of its language
(`Program.block_of_parse_whileDo`) or instructions of the GOTO language
(`Program.wellFormed_of_parse_goto`), which the machine executes (`Instruction.WellFormed.executable`).
-/

namespace CounterPrograms

theorem Expr.IsOperand.proper {e : Expr} (h : e.IsOperand) : e.Proper := by
  cases e with
  | num n => trivial
  | var x => trivial
  | binary l op r => exact h.elim
  | foreign f => exact h.elim

theorem Expr.WellFormed.proper {e : Expr} (h : e.WellFormed) : e.Proper := by
  cases e with
  | num n => trivial
  | var x => trivial
  | binary l op r => exact ⟨h.1.proper, h.2.1, h.2.2.proper⟩
  | foreign f => exact h.elim

theorem Condition.WellFormed.proper {c : Condition} (h : c.WellFormed) : c.Proper :=
  ⟨h.left.proper, h.op, h.right.proper⟩

theorem Loop.block_of_wellFormed {ss : List Stmt} (h : Stmt.WellFormedBlock .loop ss) :
    Block ss := by
  induction ss using Stmt.blockInduction with
  | nil => exact .nil
  | assign x e rest ih => exact .assign h.1.2.proper (ih h.2)
  | loop x body rest ihb ihr => exact .loop (ihb h.1.2.2) (ihr h.2)
  | whileDo c body rest ihb ihr => cases h.1.1
  | ifThen c t rest iht ihr => cases h.1.1
  | ifElse c t e rest iht ihe ihr => cases h.1.1
  | goto x rest ih => cases h.1.1
  | ifGoto c x rest ih => cases h.1.1
  | halt rest ih => cases h.1
  | foreign f rest ih => exact h.1.elim

theorem While.block_of_wellFormed {ss : List Stmt} (h : Stmt.WellFormedBlock .whileDo ss) :
    Block ss := by
  induction ss using Stmt.blockInduction with
  | nil => exact .nil
  | assign x e rest ih => exact .assign h.1.2.proper (ih h.2)
  | whileDo c body rest ihb ihr => exact .whileDo h.1.2.1.proper (ihb h.1.2.2) (ihr h.2)
  | ifThen c t rest iht ihr => exact .ifThen h.1.2.1.proper (iht h.1.2.2) (ihr h.2)
  | ifElse c t e rest iht ihe ihr =>
      exact .ifElse h.1.2.1.proper (iht h.1.2.2.1) (ihe h.1.2.2.2) (ihr h.2)
  | loop x body rest ihb ihr => cases h.1.1
  | goto x rest ih => cases h.1.1
  | ifGoto c x rest ih => cases h.1.1
  | halt rest ih => cases h.1
  | foreign f rest ih => exact h.1.elim

/-- What can be written as a statement of the GOTO language is executable. -/
theorem Instruction.WellFormed.executable {i : Instruction} (h : i.WellFormed) :
    Machine.Executable i.statement := by
  have hst := h.statement
  cases hs : i.statement with
  | assign x e =>
      rw [hs] at hst
      exact ⟨[], .assign hst.2.proper⟩
  | goto l => exact ⟨[l], .goto List.mem_cons_self⟩
  | ifGoto c l =>
      rw [hs] at hst
      exact ⟨[l], .ifGoto hst.2.1.proper List.mem_cons_self⟩
  | halt => exact ⟨[], .halt⟩
  | loop x body =>
      rw [hs] at hst
      cases hst.1
  | whileDo c body =>
      rw [hs] at hst
      cases hst.1
  | ifThen c t e =>
      rw [hs] at hst
      cases e with
      | none => cases hst.1
      | some e => cases hst.1
  | foreign f =>
      rw [hs] at hst
      exact hst.elim

namespace Program

variable {text : String} {p : Program}

theorem block_of_parse_whileDo (h : parse .whileDo text = .ok p) :
    ∃ ss, p = .whileDo ss ∧ While.Block ss := by
  have hwell := wellFormed_of_parse h
  cases p with
  | whileDo ss => exact ⟨ss, rfl, While.block_of_wellFormed hwell.2⟩
  | loop ss => cases hwell.1
  | goto is => cases hwell.1

theorem wellFormed_of_parse_goto (h : parse .goto text = .ok p) :
    ∃ is, p = .goto is ∧ ∀ i ∈ is, i.WellFormed := by
  have hwell := wellFormed_of_parse h
  cases p with
  | goto is => exact ⟨is, rfl, hwell.2⟩
  | loop ss => cases hwell.1
  | whileDo ss => cases hwell.1

end Program

end CounterPrograms
