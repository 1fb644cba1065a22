import CounterPrograms.Proofs.Run.Goto
import CounterPrograms.Proofs.Run.Record

/-!
# What runs are made of

Every interpreter puts its runs together from assignments, counted steps and errors.  So what holds
of these, and of two runs one after the other if it holds of both (`Recorded.Compositional`), holds
of every run (`Machine.compose_recordExecution`) and of every evaluation with natural numbers
(`Machine.compose_record`).
-/

namespace CounterPrograms

namespace Recorded

/-- `R` holds of the memory before a run and of the run whenever it holds of the runs that this one
is put together from. -/
structure Compositional (R : Memory → Recorded Memory → Prop) : Prop where
  returned : ∀ m, R m (silent (.returned m))
  raised : ∀ e m, R m (silent (.raised e m))
  count : ∀ m, R m (silent (.returned m.count))
  andThen : ∀ {m r next}, R m r → (∀ m', R m' (next m')) → R m (r.andThen next)

theorem silent_andThen (m : Memory) (next : Memory → Recorded Memory) :
    (silent (.returned m)).andThen next = next m := rfl

namespace Compositional

variable {R : Memory → Recorded Memory → Prop}

/-- An error behind a counted step. -/
theorem raised_count (hR : Compositional R) (e : RunError) (m : Memory) :
    R m (silent (.raised e m.count)) :=
  hR.andThen (hR.count m) (hR.raised e)

theorem tick (hR : Compositional R) (m : Memory) : R m (silent m.tick) := by
  unfold Memory.tick
  split
  · exact hR.count m
  · exact hR.raised_count .stepLimit m

theorem recordTest (hR : Compositional R) {m : Memory} {c : Condition}
    {next : Bool → Recorded Memory} (h : ∀ b, R m (next b)) : R m (m.recordTest c next) := by
  unfold Memory.recordTest
  split
  · exact h _
  · exact hR.raised _ m

end Compositional

end Recorded

open Recorded

variable {R : Memory → Recorded Memory → Prop}

/-! ### Blocks -/

namespace Loop

theorem compose_recordTimes (hR : Compositional R) {body : Memory → Recorded Memory}
    (h : ∀ m, R m (body m)) (n : Nat) (m : Memory) : R m (recordTimes body n m) := by
  induction n generalizing m with
  | zero => exact hR.returned m
  | succ n ih => exact hR.andThen (h m) ih

/-- What holds of the assignments of a block holds of its runs. -/
theorem compose_recordBlock (hR : Compositional R) {ss : List Stmt}
    (hs : ∀ x e, .assign x e ∈ Stmt.partsOfBlock ss → ∀ m, R m (m.recordAssign x e)) (m : Memory) :
    R m (recordBlock ss m) := by
  induction ss using Stmt.blockInduction generalizing m with
  | nil => exact hR.returned m
  | assign x e rest ih =>
      have hfirst : R m (m.recordAssign x e) := hs x e List.mem_cons_self m
      exact hR.andThen hfirst (ih fun y f hmem => hs y f (List.mem_cons_of_mem _ hmem))
  | loop v body rest ihb ihr =>
      simp only [Stmt.partsOfBlock, Stmt.parts, List.mem_append, List.mem_cons] at hs
      have hbody : ∀ m, R m (recordBlock body m) :=
        ihb fun x e hmem => hs x e (.inl (.inr hmem))
      exact hR.andThen (compose_recordTimes hR hbody _ m) (ihr fun x e hmem => hs x e (.inr hmem))
  | whileDo | ifThen | ifElse | goto | ifGoto | halt | foreign => exact hR.raised _ m

end Loop

namespace While

theorem compose_recordWhile (hR : Compositional R) {body : Memory → Recorded Memory}
    (h : ∀ m, R m (body m)) (c : Condition) (checks : Nat) (m : Memory) :
    R m (recordWhile c body checks m) := by
  induction checks generalizing m with
  | zero => exact hR.tick m
  | succ checks ih =>
      refine hR.andThen (hR.tick m) fun m' => hR.recordTest fun b => ?_
      cases b with
      | true => exact hR.andThen (h m') ih
      | false => exact hR.returned m'

/-- What holds of the assignments of a block holds of its runs. -/
theorem compose_recordBlock (hR : Compositional R) {ss : List Stmt}
    (hs : ∀ x e, .assign x e ∈ Stmt.partsOfBlock ss → ∀ m, R m (m.recordAssign x e)) (m : Memory) :
    R m (recordBlock ss m) := by
  induction ss using Stmt.blockInduction generalizing m with
  | nil => exact hR.returned m
  | assign x e rest ih =>
      have hfirst : R m (m.recordAssign x e) := hs x e List.mem_cons_self m
      exact hR.andThen hfirst (ih fun y f hmem => hs y f (List.mem_cons_of_mem _ hmem))
  | whileDo c body rest ihb ihr =>
      simp only [Stmt.partsOfBlock, Stmt.parts, List.mem_append, List.mem_cons] at hs
      have hbody : ∀ m, R m (recordBlock body m) :=
        ihb fun x e hmem => hs x e (.inl (.inr hmem))
      exact hR.andThen (compose_recordWhile hR hbody c _ m) (ihr fun x e hmem => hs x e (.inr hmem))
  | ifThen c t rest iht ihr =>
      simp only [Stmt.partsOfBlock, Stmt.parts, List.mem_append, List.mem_cons] at hs
      refine hR.andThen (hR.recordTest fun b => ?_) (ihr fun x e hmem => hs x e (.inr hmem))
      cases b with
      | true => exact iht (fun x e hmem => hs x e (.inl (.inr hmem))) m
      | false => exact hR.returned m
  | ifElse c t f rest iht ihf ihr =>
      simp only [Stmt.partsOfBlock, Stmt.parts, List.mem_append, List.mem_cons] at hs
      refine hR.andThen (hR.recordTest fun b => ?_) (ihr fun x e hmem => hs x e (.inr hmem))
      cases b with
      | true => exact iht (fun x e hmem => hs x e (.inl (.inr (.inl hmem)))) m
      | false => exact ihf (fun x e hmem => hs x e (.inl (.inr (.inr hmem)))) m
  | loop | goto | ifGoto | halt | foreign => exact hR.raised _ m

end While

/-! ### Instructions -/

theorem Memory.recordAssign_andThen {m : Memory} {x : String} {e : Expr} {n : Int}
    (h : e.eval m.store = .ok n) (next : Memory → Recorded Memory) :
    (m.recordAssign x e).andThen next = (next (m.assign x n)).after [(x, n)] := by
  simp only [recordAssign, written, runAssign, h, andThen]

namespace Machine

theorem map_memory (r : Recorded Memory) (s : Machine) :
    (r.map fun m => { s with memory := m }).map memory = r := by
  obtain ⟨ws, o⟩ := r
  cases o <;> rfl

theorem written_assign {s : Machine} {x : String} {e : Expr} {n : Int}
    (h : e.eval s.memory.store = .ok n) : s.written (.assign x e) = [(x, n)] := by
  simp only [written, Memory.written, h]

/-- An instruction after which the machine goes on counts a step and may assign a value. -/
theorem compose_execute (hR : Compositional R) {s t : Machine} {st : Stmt}
    (hst : ∀ x e, st = .assign x e → ∀ m, R m (m.recordAssign x e))
    (h : s.count.execute st = .going t) {next : Machine → Recorded Machine}
    (hnext : ∀ u : Machine, R u.memory ((next u).map memory)) :
    R s.memory (((next t).after (s.written st)).map memory) := by
  rcases execute_eq_going h with ⟨x, e, n, rfl, hn, rfl⟩ | ⟨l, p, rfl, _, rfl⟩ |
    ⟨c, l, p, rfl, _, _, rfl⟩ | ⟨c, l, rfl, _, rfl⟩
  · -- Counting the step has not changed the store, so the expression has the value it had.
    have hcount : e.eval s.memory.count.store = .ok n := hn
    have hrun := hR.andThen (hR.count s.memory) fun m => hR.andThen (hst x e rfl m) fun m' =>
      hnext { s.count with memory := m', pc := s.pc + 1 }
    rw [silent_andThen, Memory.recordAssign_andThen hcount] at hrun
    rw [written_assign hcount]
    exact hrun
  · exact hR.andThen (hR.count s.memory) fun m => hnext { s.count with memory := m, pc := p }
  · exact hR.andThen (hR.count s.memory) fun m => hnext { s.count with memory := m, pc := p }
  · exact hR.andThen (hR.count s.memory) fun m =>
      hnext { s.count with memory := m, pc := s.pc + 1 }

theorem compose_recordRun (hR : Compositional R) {code : List Instruction}
    (hcode : ∀ i ∈ code, ∀ x e, i.statement = .assign x e → ∀ m, R m (m.recordAssign x e))
    (left : Nat) (s : Machine) : R s.memory ((recordRun code left s).map memory) := by
  induction left generalizing s with
  | zero =>
      rw [recordRun]
      split
      · exact hR.raised_count .stepLimit s.memory
      · exact hR.returned s.memory
  | succ left ih =>
      rw [recordRun]
      cases hi : code[s.pc]? with
      | none => exact hR.returned s.memory
      | some i =>
          simp only
          cases hexec : s.count.execute i.statement with
          | going t => exact compose_execute hR (hcode i (List.mem_of_getElem? hi)) hexec ih
          | halted t =>
              obtain ⟨_, rfl⟩ := execute_eq_halted hexec
              exact hR.count s.memory
          | failed e t =>
              obtain rfl := execute_eq_failed hexec
              exact hR.raised_count e s.memory

theorem compose_recordStart (hR : Compositional R) {code : List Instruction}
    (hcode : ∀ i ∈ code, ∀ x e, i.statement = .assign x e → ∀ m, R m (m.recordAssign x e))
    (s : Machine) : R s.memory ((recordStart code s).map memory) := by
  rw [recordStart]
  split
  · exact hR.raised _ s.memory
  · next labels _ => exact compose_recordRun hR hcode _ { s with labels := labels, pc := 0 }

/-! ### Programs -/

/-- What holds of the assignments of a program holds of its runs, in whatever language. -/
theorem compose_recordExecution (hR : Compositional R) {p : Program}
    (hp : ∀ x e, .assign x e ∈ p.parts → ∀ m, R m (m.recordAssign x e)) (language : Language)
    (s : Machine) : R s.memory ((recordExecution language p s).map memory) := by
  cases language with
  | loop =>
      rw [recordExecution, map_memory]
      exact Loop.compose_recordBlock hR
        (fun x e h => hp x e (p.parts_of_statements h fun _ => Stmt.noConfusion)) s.memory
  | whileDo =>
      rw [recordExecution, map_memory]
      exact While.compose_recordBlock hR
        (fun x e h => hp x e (p.parts_of_statements h fun _ => Stmt.noConfusion)) s.memory
  | goto =>
      rw [recordExecution]
      cases habsent : p.absent? with
      | some found =>
          obtain ⟨e, labels, _, hrefuse⟩ := exists_refuse_eq p.instructions.tail found
          show R s.memory ((silent (s.refuse p.instructions.tail found)).map memory)
          rw [hrefuse]
          exact hR.raised e s.memory
      | none =>
          obtain ⟨is, rfl⟩ := Program.exists_of_absent? habsent
          exact compose_recordStart hR
            (fun i hi x e hst => hp x e (hst ▸ Program.parts_of_instructions hi)) s

theorem record_ofNaturals (language : Language) (p : Program) (pairs : List (String × Nat))
    (s : Machine) :
    s.record language p (.ofNaturals pairs) =
      recordExecution language p { s with memory := (Inputs.ofNaturals pairs).memory } := by
  rw [record, (Inputs.bindAll_memory pairs).1]
  rfl

/-- What holds of the assignments of a program holds of its evaluations with natural numbers. -/
theorem compose_record (hR : Compositional R) {p : Program}
    (hp : ∀ x e, .assign x e ∈ p.parts → ∀ m, R m (m.recordAssign x e)) (language : Language)
    (pairs : List (String × Nat)) (s : Machine) :
    R (Inputs.ofNaturals pairs).memory
      ((s.record language p (.ofNaturals pairs)).map memory) := by
  rw [record_ofNaturals]
  exact compose_recordExecution hR hp language
    { s with memory := (Inputs.ofNaturals pairs).memory }

end Machine

end CounterPrograms
