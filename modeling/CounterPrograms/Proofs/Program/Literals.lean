import CounterPrograms.Proofs.Program.Block
import CounterPrograms.Proofs.Program.WellFormed

/-!
# The numbers in a program that was read

A number is written without a sign, so no program read from a text has a negative number in it
(`Program.nonneg_of_parse`).
-/

namespace CounterPrograms

theorem Expr.IsOperand.nonneg {e : Expr} (h : e.IsOperand) : ∀ n ∈ e.literals, 0 ≤ n := by
  cases e with
  | num n => exact List.forall_mem_singleton.mpr h.1
  | var x => exact nofun
  | binary l op r => exact h.elim
  | foreign f => exact h.elim

theorem Expr.WellFormed.nonneg {e : Expr} (h : e.WellFormed) : ∀ n ∈ e.literals, 0 ≤ n := by
  cases e with
  | num n => exact IsOperand.nonneg (e := .num n) h
  | var x => exact nofun
  | binary l op r => exact List.forall_mem_append.mpr ⟨h.1.nonneg, h.2.2.nonneg⟩
  | foreign f => exact h.elim

theorem Condition.WellFormed.nonneg {c : Condition} (h : c.WellFormed) :
    ∀ n ∈ c.literals, 0 ≤ n :=
  List.forall_mem_append.mpr ⟨h.left.nonneg, h.right.nonneg⟩

theorem Stmt.nonneg_of_wellFormedBlock {l : Language} {ss : List Stmt}
    (h : WellFormedBlock l ss) : ∀ n ∈ literalsOfBlock ss, 0 ≤ n := by
  induction ss using blockInduction with
  | nil => exact nofun
  | assign x e rest ih => exact List.forall_mem_append.mpr ⟨h.1.2.nonneg, ih h.2⟩
  | loop x body rest ihb ihr => exact List.forall_mem_append.mpr ⟨ihb h.1.2.2, ihr h.2⟩
  | whileDo c body rest ihb ihr =>
      have hloop := List.forall_mem_append.mpr ⟨h.1.2.1.nonneg, ihb h.1.2.2⟩
      exact List.forall_mem_append.mpr ⟨hloop, ihr h.2⟩
  | ifThen c t rest iht ihr =>
      have hbranch := List.forall_mem_append.mpr ⟨h.1.2.1.nonneg, iht h.1.2.2⟩
      exact List.forall_mem_append.mpr ⟨hbranch, ihr h.2⟩
  | ifElse c t e rest iht ihe ihr =>
      have hbranch := List.forall_mem_append.mpr ⟨h.1.2.1.nonneg, iht h.1.2.2.1⟩
      have hboth := List.forall_mem_append.mpr ⟨hbranch, ihe h.1.2.2.2⟩
      exact List.forall_mem_append.mpr ⟨hboth, ihr h.2⟩
  | goto x rest ih => exact ih h.2
  | ifGoto c x rest ih => exact List.forall_mem_append.mpr ⟨h.1.2.1.nonneg, ih h.2⟩
  | halt rest ih => exact ih h.2
  | foreign f rest ih => exact h.1.elim

namespace Program

variable {l : Language} {text : String} {p : Program}

theorem WellFormed.language_eq (h : p.WellFormed l) : p.language = l := by
  cases p with
  | loop ss => exact h.1.symm
  | whileDo ss => exact h.1.symm
  | goto is => exact h.1.symm

theorem WellFormed.nonneg (h : p.WellFormed l) : ∀ n ∈ p.literals, 0 ≤ n := by
  cases p with
  | loop ss => exact Stmt.nonneg_of_wellFormedBlock h.2
  | whileDo ss => exact Stmt.nonneg_of_wellFormedBlock h.2
  | goto is =>
      have hblock : Stmt.WellFormedBlock .goto (is.map Instruction.statement) :=
        Stmt.wellFormedBlock_iff.mpr (List.forall_mem_map.mpr fun i hi => (h.2 i hi).statement)
      exact Stmt.nonneg_of_wellFormedBlock hblock

theorem language_of_parse (h : parse l text = .ok p) : p.language = l :=
  (wellFormed_of_parse h).language_eq

/-- No program that was read has a negative number in it. -/
theorem nonneg_of_parse (h : parse l text = .ok p) : ∀ n ∈ p.literals, 0 ≤ n :=
  (wellFormed_of_parse h).nonneg

end Program

end CounterPrograms
