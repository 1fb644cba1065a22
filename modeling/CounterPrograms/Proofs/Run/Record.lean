import CounterPrograms.Proofs.Program.Block
import CounterPrograms.Proofs.Sequence
import CounterPrograms.Run.Evaluate

/-!
# Runs that record their assignments

Every interpreter again, this time with a record of the assignments that are executed: the variable
and the value of the right-hand side at that moment, whether or not a lock makes the memory drop it.
The record is there also if an error stops the run.

Recording changes nothing else: for each interpreter a theorem `outcome_…` says that the recorded
run ends as the run does.  `Machine.outcome_record` says it of whole evaluations.
-/

namespace CounterPrograms

/-- The assignments that a run has executed, in order, and how it ended. -/
structure Recorded (σ : Type) where
  writes : List (String × Int)
  outcome : Outcome σ

namespace Recorded

variable {σ τ : Type}

/-- A run without assignments. -/
def silent (o : Outcome σ) : Recorded σ := ⟨[], o⟩

/-- The run before which the given assignments were executed. -/
def after (ws : List (String × Int)) (r : Recorded σ) : Recorded σ :=
  ⟨ws ++ r.writes, r.outcome⟩

/-- Goes on with `next` if the run has returned. -/
def andThen (r : Recorded σ) (next : σ → Recorded σ) : Recorded σ :=
  match r.outcome with
  | .returned s => (next s).after r.writes
  | .raised _ _ => r

/-- Changes the state in which a run ended. -/
def map (f : σ → τ) (r : Recorded σ) : Recorded τ :=
  ⟨r.writes, r.outcome.map f⟩

@[simp]
theorem outcome_andThen (r : Recorded σ) (next : σ → Recorded σ) :
    (r.andThen next).outcome = r.outcome.andThen fun s => (next s).outcome := by
  unfold andThen
  cases h : r.outcome with
  | returned s => rfl
  | raised e s => exact h

end Recorded

/-! ### Assignments and conditions -/

namespace Memory

/-- What an assignment records: its variable and its value, if it has one. -/
def written (m : Memory) (x : String) (e : Expr) : List (String × Int) :=
  match e.eval m.store with
  | .ok n => [(x, n)]
  | .error _ => []

/-- Runs an assignment and records it. -/
def recordAssign (m : Memory) (x : String) (e : Expr) : Recorded Memory :=
  ⟨m.written x e, m.runAssign x e⟩

/-- Goes on with `next` according to whether a condition holds. -/
def recordTest (m : Memory) (c : Condition) (next : Bool → Recorded Memory) : Recorded Memory :=
  match c.eval m.store with
  | .ok b => next b
  | .error e => .silent (.raised e m)

theorem outcome_recordTest (m : Memory) (c : Condition) (next : Bool → Recorded Memory) :
    (m.recordTest c next).outcome = m.test c fun b => (next b).outcome := by
  unfold recordTest test
  cases c.eval m.store <;> rfl

end Memory

/-! ### LOOP programs -/

namespace Loop

/-- Runs `body` a number of times and records its assignments. -/
def recordTimes (body : Memory → Recorded Memory) : Nat → Memory → Recorded Memory
  | 0, m => .silent (.returned m)
  | n + 1, m => (body m).andThen (recordTimes body n)

mutual

/-- Runs a statement and records its assignments. -/
def recordStmt : Stmt → Memory → Recorded Memory
  | .assign target value, m => m.recordAssign target value
  | .loop counter body, m => recordTimes (recordBlock body) (m.store.value counter).toNat m
  | s, m => .silent (.raised (.unknownStatement .loop s.found) m)
termination_by structural s => s

/-- Runs a block and records its assignments. -/
def recordBlock : List Stmt → Memory → Recorded Memory
  | [], m => .silent (.returned m)
  | s :: rest, m => (recordStmt s m).andThen (recordBlock rest)
termination_by structural ss => ss

end

theorem outcome_recordTimes {recorded : Memory → Recorded Memory} {body : Memory → Outcome Memory}
    (h : ∀ m, (recorded m).outcome = body m) (n : Nat) (m : Memory) :
    (recordTimes recorded n m).outcome = repeatTimes body n m := by
  induction n generalizing m with
  | zero => rfl
  | succ n ih =>
      rw [recordTimes, repeatTimes, Recorded.outcome_andThen, h]
      simp only [ih]

theorem outcome_recordBlock (ss : List Stmt) (m : Memory) :
    (recordBlock ss m).outcome = runBlock ss m := by
  induction ss using Stmt.blockInduction generalizing m with
  | nil => rfl
  | assign x e rest ih =>
      rw [recordBlock, runBlock, Recorded.outcome_andThen]
      simp only [ih]
      rfl
  | loop v body rest ihb ihr =>
      rw [recordBlock, runBlock, Recorded.outcome_andThen, recordStmt, runStmt,
        outcome_recordTimes ihb]
      simp only [ihr]
  | whileDo | ifThen | ifElse | goto | ifGoto | halt | foreign => rfl

end Loop

/-! ### WHILE programs -/

namespace While

/-- Runs a loop that may check its condition `checks` more times, and records the assignments of
its body. -/
def recordWhile (c : Condition) (body : Memory → Recorded Memory) :
    Nat → Memory → Recorded Memory
  | 0, m => .silent m.tick
  | checks + 1, m =>
    (Recorded.silent m.tick).andThen fun m =>
      m.recordTest c fun holds =>
        if holds then (body m).andThen (recordWhile c body checks) else .silent (.returned m)

mutual

/-- Runs a statement and records its assignments. -/
def recordStmt : Stmt → Memory → Recorded Memory
  | .assign target value, m => m.recordAssign target value
  | .whileDo c body, m => recordWhile c (recordBlock body) (stepLimit - m.steps) m
  | .ifThen c thenBody none, m =>
    m.recordTest c fun holds => if holds then recordBlock thenBody m else .silent (.returned m)
  | .ifThen c thenBody (some elseBody), m =>
    m.recordTest c fun holds => if holds then recordBlock thenBody m else recordBlock elseBody m
  | s, m => .silent (.raised (.unknownStatement .whileDo s.found) m)
termination_by structural s => s

/-- Runs a block and records its assignments. -/
def recordBlock : List Stmt → Memory → Recorded Memory
  | [], m => .silent (.returned m)
  | s :: rest, m => (recordStmt s m).andThen (recordBlock rest)
termination_by structural ss => ss

end

theorem outcome_recordWhile {recorded : Memory → Recorded Memory} {body : Memory → Outcome Memory}
    (h : ∀ m, (recorded m).outcome = body m) (c : Condition) (checks : Nat) (m : Memory) :
    (recordWhile c recorded checks m).outcome = repeatWhile c body checks m := by
  induction checks generalizing m with
  | zero => rfl
  | succ checks ih =>
      rw [recordWhile, repeatWhile, Recorded.outcome_andThen]
      simp only [Memory.outcome_recordTest, apply_ite Recorded.outcome, Recorded.outcome_andThen, h,
        ih]
      rfl

theorem outcome_recordBlock (ss : List Stmt) (m : Memory) :
    (recordBlock ss m).outcome = runBlock ss m := by
  induction ss using Stmt.blockInduction generalizing m with
  | nil => rfl
  | assign x e rest ih =>
      rw [recordBlock, runBlock, Recorded.outcome_andThen]
      simp only [ih]
      rfl
  | whileDo c body rest ihb ihr =>
      rw [recordBlock, runBlock, Recorded.outcome_andThen, recordStmt, runStmt,
        outcome_recordWhile ihb]
      simp only [ihr]
  | ifThen c t rest iht ihr =>
      rw [recordBlock, runBlock, Recorded.outcome_andThen, recordStmt, runStmt,
        Memory.outcome_recordTest]
      simp only [apply_ite Recorded.outcome, iht, ihr]
      rfl
  | ifElse c t e rest iht ihe ihr =>
      rw [recordBlock, runBlock, Recorded.outcome_andThen, recordStmt, runStmt,
        Memory.outcome_recordTest]
      simp only [apply_ite Recorded.outcome, iht, ihe, ihr]
  | loop | goto | ifGoto | halt | foreign => rfl

end While

/-! ### GOTO programs -/

namespace Machine

/-- What executing a statement records. -/
def written (s : Machine) : Stmt → List (String × Int)
  | .assign x e => s.memory.written x e
  | _ => []

/-- Runs a program of which `left` more instructions may be executed, and records its
assignments. -/
def recordRun (code : List Instruction) : Nat → Machine → Recorded Machine
  | 0, s => .silent (if s.pc < code.length then .raised .stepLimit s.count else .returned s)
  | left + 1, s =>
    match code[s.pc]? with
    | none => .silent (.returned s)
    | some i =>
      match s.count.execute i.statement with
      | .going t => (recordRun code left t).after (s.written i.statement)
      | .halted t => .silent (.returned t)
      | .failed e t => .silent (.raised e t)

/-- Starts a program from its first instruction and records its assignments. -/
def recordStart (code : List Instruction) (s : Machine) : Recorded Machine :=
  match Labels.table 0 code with
  | .error r => .silent (.raised (.duplicateLabel r.label) { s with labels := r.before })
  | .ok labels => recordRun code (stepLimit - s.memory.steps) { s with labels := labels, pc := 0 }

theorem outcome_recordRun (code : List Instruction) (left : Nat) (s : Machine) :
    (recordRun code left s).outcome = run code left s := by
  induction left generalizing s with
  | zero => rfl
  | succ left ih =>
      rw [recordRun, run]
      cases code[s.pc]? with
      | none => rfl
      | some i =>
          simp only
          cases s.count.execute i.statement with
          | going t => exact ih t
          | halted t => rfl
          | failed e t => rfl

theorem outcome_recordStart (code : List Instruction) (s : Machine) :
    (recordStart code s).outcome = start code s := by
  unfold recordStart start
  cases Labels.table 0 code with
  | error r => rfl
  | ok labels => exact outcome_recordRun code _ _

/-! ### Evaluations -/

/-- Runs a program on the machine as a program of the given language, and records its
assignments. -/
def recordExecution (language : Language) (p : Program) (s : Machine) : Recorded Machine :=
  match language with
  | .loop => (Loop.recordBlock p.statements s.memory).map fun m => { s with memory := m }
  | .whileDo => (While.recordBlock p.statements s.memory).map fun m => { s with memory := m }
  | .goto =>
    match p.absent? with
    | some found => .silent (s.refuse p.instructions.tail found)
    | none => s.recordStart p.instructions

/-- Evaluates a program and records its assignments; binding the initial values is none. -/
def record (language : Language) (p : Program) (inputs : Inputs) (s : Machine) :
    Recorded Machine :=
  ((Recorded.silent (Memory.bindAll inputs .empty)).map fun m => { s with memory := m }).andThen
    (recordExecution language p)

theorem outcome_recordExecution (language : Language) (p : Program) (s : Machine) :
    (recordExecution language p s).outcome = execution language p s := by
  cases language with
  | loop => exact congrArg (Outcome.map _) (Loop.outcome_recordBlock p.statements s.memory)
  | whileDo => exact congrArg (Outcome.map _) (While.outcome_recordBlock p.statements s.memory)
  | goto =>
      unfold recordExecution execution
      cases p.absent? with
      | some found => rfl
      | none => exact outcome_recordStart p.instructions s

/-- Recording does not change an evaluation. -/
theorem outcome_record (language : Language) (p : Program) (inputs : Inputs) (s : Machine) :
    (s.record language p inputs).outcome = s.evaluate language p inputs := by
  rw [record, Recorded.outcome_andThen]
  simp only [outcome_recordExecution]
  rfl

end Machine

end CounterPrograms
