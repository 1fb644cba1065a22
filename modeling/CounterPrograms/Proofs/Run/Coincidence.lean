import CounterPrograms.Proofs.Run.Invariant
import CounterPrograms.Proofs.Run.Locks

/-!
# The variables that a run depends on

Two runs of a program that begin with the same values for the variables of the program go the same
way: they end alike, after as many steps and at the same position, and agree on these variables
(`Machine.alike_execution`).  The variables that are not in the program are spared: they keep their
initial values and their locks (`Machine.spares_evaluate`).
-/

namespace CounterPrograms

/-! ### Memories that agree -/

/-- The memories give the same values to the given names, lock the same of them and have counted the
same number of steps. -/
structure Memory.AgreesOn (names : List String) (m μ : Memory) : Prop where
  get?_eq : ∀ x ∈ names, m.store.get? x = μ.store.get? x
  mem_locked : ∀ x ∈ names, x ∈ m.locked ↔ x ∈ μ.locked
  steps_eq : m.steps = μ.steps

namespace Memory.AgreesOn

variable {names : List String} {m μ : Memory}

theorem value_eq (h : m.AgreesOn names μ) {x : String} (hx : x ∈ names) :
    m.store.value x = μ.store.value x := by
  rw [Store.value, Store.value, h.get?_eq x hx]

theorem eval_eq (h : m.AgreesOn names μ) {e : Expr} (he : e.names ⊆ names) :
    e.eval m.store = e.eval μ.store :=
  Expr.eval_congr fun _ hx => h.value_eq (he hx)

theorem test_eq (h : m.AgreesOn names μ) {c : Condition} (hc : c.names ⊆ names) :
    c.eval m.store = c.eval μ.store :=
  Condition.eval_congr fun _ hx => h.value_eq (hc hx)

theorem count (h : m.AgreesOn names μ) : m.count.AgreesOn names μ.count :=
  ⟨h.get?_eq, h.mem_locked, congrArg (· + 1) h.steps_eq⟩

/-- The same assignment is dropped on both sides or on none. -/
theorem assign (h : m.AgreesOn names μ) {x : String} (hx : x ∈ names) (v : Int) :
    (m.assign x v).AgreesOn names (μ.assign x v) := by
  refine ⟨fun y hy => ?_, fun y hy => ?_, ?_⟩
  · by_cases hxy : y = x
    · subst hxy
      by_cases hl : y ∈ m.locked
      · rw [assign_of_mem hl, assign_of_mem ((h.mem_locked y hy).mp hl)]
        exact h.get?_eq y hy
      · have hl' : y ∉ μ.locked := fun hμ => hl ((h.mem_locked y hy).mpr hμ)
        rw [get?_assign_self hl, get?_assign_self hl']
    · rw [get?_assign_of_ne hxy, get?_assign_of_ne hxy, h.get?_eq y hy]
  · rw [mem_locked_assign, mem_locked_assign, h.mem_locked y hy]
  · rw [steps_assign, steps_assign, h.steps_eq]

end Memory.AgreesOn

theorem Inputs.agreesOn_memory {names : List String} {b₁ b₂ : List (String × Nat)}
    (h : ∀ x ∈ names, ∀ n, (x, .natural n) ∈ ofNaturals b₁ ↔ (x, .natural n) ∈ ofNaturals b₂) :
    (ofNaturals b₁).memory.AgreesOn names (ofNaturals b₂).memory := by
  obtain ⟨_, hi₁⟩ := bindAll_memory b₁
  obtain ⟨_, hi₂⟩ := bindAll_memory b₂
  refine ⟨fun x hx => Option.ext fun v => ?_, fun x hx => ?_, ?_⟩
  · rw [holds_memory b₁ x v, holds_memory b₂ x v]
    simp only [h x hx]
  · rw [hi₁.mem_locked, hi₂.mem_locked, mem_names_ofNaturals_iff, mem_names_ofNaturals_iff]
    simp only [h x hx]
  · rw [hi₁.steps, hi₂.steps]

/-! ### Runs that end alike -/

namespace Outcome

/-- Both runs have returned, or the same error has stopped them, and their states are related. -/
structure Alike {σ : Type} (R : σ → σ → Prop) (o o' : Outcome σ) : Prop where
  error?_eq : o.error? = o'.error?
  state : R o.state o'.state

variable {σ τ : Type} {R : σ → σ → Prop} {o o' : Outcome σ}

theorem Alike.andThen {next next' : σ → Outcome σ} (h : Alike R o o')
    (hnext : ∀ s t, R s t → Alike R (next s) (next' t)) :
    Alike R (o.andThen next) (o'.andThen next') := by
  obtain ⟨herror, hstate⟩ := h
  cases o with
  | returned s =>
      cases o' with
      | returned t => exact hnext s t hstate
      | raised e t => cases herror
  | raised e s =>
      cases o' with
      | returned t => cases herror
      | raised e' t => exact ⟨herror, hstate⟩

theorem Alike.map {S : τ → τ → Prop} {f g : σ → τ} (h : Alike R o o')
    (hfg : ∀ s t, R s t → S (f s) (g t)) : Alike S (o.map f) (o'.map g) := by
  obtain ⟨herror, hstate⟩ := h
  refine ⟨?_, ?_⟩
  · cases o <;> cases o' <;> exact herror
  · rw [state_map, state_map]
    exact hfg _ _ hstate

end Outcome

open Outcome

namespace Memory

variable {names : List String} {m μ : Memory}

theorem alike_tick (h : m.AgreesOn names μ) : m.tick.Alike (AgreesOn names) μ.tick := by
  by_cases hlt : m.steps < stepLimit
  · rw [tick_of_lt hlt, tick_of_lt (h.steps_eq ▸ hlt)]
    exact ⟨rfl, h.count⟩
  · rw [tick_of_not_lt hlt, tick_of_not_lt (h.steps_eq ▸ hlt)]
    exact ⟨rfl, h.count⟩

theorem alike_runAssign (h : m.AgreesOn names μ) {x : String} {e : Expr} (hx : x ∈ names)
    (he : e.names ⊆ names) : (m.runAssign x e).Alike (AgreesOn names) (μ.runAssign x e) := by
  rw [runAssign, runAssign, ← h.eval_eq he]
  cases e.eval m.store with
  | ok n => exact ⟨rfl, h.assign hx n⟩
  | error err => exact ⟨rfl, h⟩

theorem alike_test (h : m.AgreesOn names μ) {c : Condition} (hc : c.names ⊆ names)
    {next next' : Bool → Outcome Memory}
    (hnext : ∀ b, (next b).Alike (AgreesOn names) (next' b)) :
    (m.test c next).Alike (AgreesOn names) (μ.test c next') := by
  rw [test, test, ← h.test_eq hc]
  cases c.eval m.store with
  | ok b => exact hnext b
  | error err => exact ⟨rfl, h⟩

end Memory

/-! ### Blocks -/

open Memory (AgreesOn)

namespace Loop

theorem alike_repeatTimes {names : List String} {body : Memory → Outcome Memory}
    (hbody : ∀ m μ, m.AgreesOn names μ → (body m).Alike (AgreesOn names) (body μ)) (n : Nat)
    {m μ : Memory} (h : m.AgreesOn names μ) :
    (repeatTimes body n m).Alike (AgreesOn names) (repeatTimes body n μ) := by
  induction n generalizing m μ with
  | zero => exact ⟨rfl, h⟩
  | succ n ih => exact (hbody m μ h).andThen fun _ _ => ih

theorem alike_runBlock {names : List String} {ss : List Stmt} (hs : Stmt.namesOfBlock ss ⊆ names)
    {m μ : Memory} (h : m.AgreesOn names μ) :
    (runBlock ss m).Alike (AgreesOn names) (runBlock ss μ) := by
  induction ss using Stmt.blockInduction generalizing m μ with
  | nil => exact ⟨rfl, h⟩
  | assign x e rest ih =>
      simp only [Stmt.namesOfBlock, Stmt.names, List.append_subset, List.cons_subset] at hs
      obtain ⟨⟨hx, he⟩, hrest⟩ := hs
      exact (Memory.alike_runAssign h hx he).andThen fun _ _ => ih hrest
  | loop v body rest ihb ihr =>
      simp only [Stmt.namesOfBlock, Stmt.names, List.append_subset, List.cons_subset] at hs
      obtain ⟨⟨hv, hbody⟩, hrest⟩ := hs
      have hloop := alike_repeatTimes (fun _ _ => ihb hbody) (m.store.value v).toNat h
      -- The counter is a name of the block, so it has the same value on both sides.
      rw [runBlock, runBlock, runStmt, runStmt, ← h.value_eq hv]
      exact hloop.andThen fun _ _ => ihr hrest
  | whileDo | ifThen | ifElse | goto | ifGoto | halt | foreign => exact ⟨rfl, h⟩

end Loop

namespace While

theorem alike_repeatWhile {names : List String} {c : Condition} (hc : c.names ⊆ names)
    {body : Memory → Outcome Memory}
    (hbody : ∀ m μ, m.AgreesOn names μ → (body m).Alike (AgreesOn names) (body μ)) (checks : Nat)
    {m μ : Memory} (h : m.AgreesOn names μ) :
    (repeatWhile c body checks m).Alike (AgreesOn names) (repeatWhile c body checks μ) := by
  induction checks generalizing m μ with
  | zero => exact Memory.alike_tick h
  | succ checks ih =>
      refine (Memory.alike_tick h).andThen fun m₁ μ₁ h₁ => Memory.alike_test h₁ hc fun b => ?_
      cases b with
      | true => exact (hbody m₁ μ₁ h₁).andThen fun _ _ => ih
      | false => exact ⟨rfl, h₁⟩

theorem alike_runBlock {names : List String} {ss : List Stmt} (hs : Stmt.namesOfBlock ss ⊆ names)
    {m μ : Memory} (h : m.AgreesOn names μ) :
    (runBlock ss m).Alike (AgreesOn names) (runBlock ss μ) := by
  induction ss using Stmt.blockInduction generalizing m μ with
  | nil => exact ⟨rfl, h⟩
  | assign x e rest ih =>
      simp only [Stmt.namesOfBlock, Stmt.names, List.append_subset, List.cons_subset] at hs
      obtain ⟨⟨hx, he⟩, hrest⟩ := hs
      exact (Memory.alike_runAssign h hx he).andThen fun _ _ => ih hrest
  | whileDo c body rest ihb ihr =>
      simp only [Stmt.namesOfBlock, Stmt.names, List.append_subset] at hs
      obtain ⟨⟨hc, hbody⟩, hrest⟩ := hs
      have hloop := alike_repeatWhile hc (fun _ _ => ihb hbody) (stepLimit - m.steps) h
      rw [runBlock, runBlock, runStmt, runStmt, ← h.steps_eq]
      exact hloop.andThen fun _ _ => ihr hrest
  | ifThen c t rest iht ihr =>
      simp only [Stmt.namesOfBlock, Stmt.names, List.append_subset] at hs
      obtain ⟨⟨hc, ht⟩, hrest⟩ := hs
      refine (Memory.alike_test h hc fun b => ?_).andThen fun _ _ => ihr hrest
      cases b with
      | true => exact iht ht h
      | false => exact ⟨rfl, h⟩
  | ifElse c t e rest iht ihe ihr =>
      simp only [Stmt.namesOfBlock, Stmt.names, List.append_subset] at hs
      obtain ⟨⟨⟨hc, ht⟩, he⟩, hrest⟩ := hs
      refine (Memory.alike_test h hc fun b => ?_).andThen fun _ _ => ihr hrest
      cases b with
      | true => exact iht ht h
      | false => exact ihe he h
  | loop | goto | ifGoto | halt | foreign => exact ⟨rfl, h⟩

end While

/-! ### Instructions -/

namespace Machine

/-- The machines stand at the same position, with the same labels, and their memories agree on the
given names. -/
structure AgreesOn (names : List String) (s t : Machine) : Prop where
  memory : s.memory.AgreesOn names t.memory
  labels_eq : s.labels = t.labels
  pc_eq : s.pc = t.pc

/-- Both steps go on, both halt or both fail with the same error, and the machines are related. -/
inductive Step.Alike (R : Machine → Machine → Prop) : Step → Step → Prop
  | going {s t : Machine} : R s t → Alike R (.going s) (.going t)
  | halted {s t : Machine} : R s t → Alike R (.halted s) (.halted t)
  | failed {e : RunError} {s t : Machine} : R s t → Alike R (.failed e s) (.failed e t)

section steps

variable {names : List String} {s t : Machine}

theorem AgreesOn.count (h : s.AgreesOn names t) : s.count.AgreesOn names t.count :=
  ⟨h.memory.count, h.labels_eq, h.pc_eq⟩

theorem alike_next (h : s.AgreesOn names t) : s.next.Alike (AgreesOn names) t.next :=
  .going ⟨h.memory, h.labels_eq, congrArg (· + 1) h.pc_eq⟩

theorem alike_jump (h : s.AgreesOn names t) (l : String) :
    (s.jump l).Alike (AgreesOn names) (t.jump l) := by
  have hlookup : s.labels.lookup l = t.labels.lookup l := by rw [h.labels_eq]
  rw [jump, jump, ← hlookup]
  cases s.labels.lookup l with
  | some p => exact .going ⟨h.memory, h.labels_eq, rfl⟩
  | none => exact .failed h

theorem alike_execute (h : s.AgreesOn names t) {st : Stmt} (hst : st.names ⊆ names) :
    (s.execute st).Alike (AgreesOn names) (t.execute st) := by
  cases st with
  | assign x e =>
      rw [Stmt.names, List.cons_subset] at hst
      obtain ⟨hx, he⟩ := hst
      rw [execute, execute, ← h.memory.eval_eq he]
      cases e.eval s.memory.store with
      | ok n =>
          have hmemory := h.memory.assign hx n
          exact alike_next ⟨hmemory, h.labels_eq, h.pc_eq⟩
      | error err => exact .failed h
  | goto l => exact alike_jump h l
  | ifGoto c l =>
      rw [execute, execute, ← h.memory.test_eq hst]
      cases c.eval s.memory.store with
      | ok b =>
          cases b with
          | true => exact alike_jump h l
          | false => exact alike_next h
      | error err => exact .failed h
  | halt => exact .halted h
  | loop | whileDo | ifThen | foreign =>
      have hpc := h.pc_eq
      show Step.Alike _ (.failed (.unknownInstruction (s.pc + 1) _) s)
        (.failed (.unknownInstruction (t.pc + 1) _) t)
      rw [← hpc]
      exact .failed h

end steps

/-- Instructions go the same way on machines that agree on their variables. -/
theorem alike_run {names : List String} {code : List Instruction}
    (hcode : ∀ i ∈ code, i.statement.names ⊆ names) (left : Nat) {s t : Machine}
    (h : s.AgreesOn names t) : (run code left s).Alike (AgreesOn names) (run code left t) := by
  induction left generalizing s t with
  | zero =>
      rw [run, run, ← h.pc_eq]
      split
      · exact ⟨rfl, h.count⟩
      · exact ⟨rfl, h⟩
  | succ left ih =>
      rw [run, run, ← h.pc_eq]
      cases hi : code[s.pc]? with
      | none => exact ⟨rfl, h⟩
      | some i =>
          have hstep := alike_execute h.count (hcode i (List.mem_of_getElem? hi))
          -- What matters is how the steps end, no longer which statement they execute.
          simp only
          generalize s.count.execute i.statement = a at hstep
          generalize t.count.execute i.statement = b at hstep
          cases hstep with
          | going hst => exact ih hst
          | halted hst => exact ⟨rfl, hst⟩
          | failed hst => exact ⟨rfl, hst⟩

theorem alike_start {names : List String} {code : List Instruction}
    (hcode : ∀ i ∈ code, i.statement.names ⊆ names) {s t : Machine}
    (h : s.memory.AgreesOn names t.memory) (hpc : s.pc = t.pc) :
    (start code s).Alike (AgreesOn names) (start code t) := by
  rw [start, start, ← h.steps_eq]
  cases Labels.table 0 code with
  | error r => exact ⟨rfl, h, rfl, hpc⟩
  | ok labels => exact alike_run hcode _ ⟨h, rfl, rfl⟩

theorem alike_refuse {names : List String} (code : List Instruction) (found : Foreign)
    {s t : Machine} (h : s.AgreesOn names t) :
    (refuse code found s).Alike (AgreesOn names) (refuse code found t) := by
  obtain ⟨e, labels, _, hrefuse⟩ := exists_refuse_eq code found
  rw [hrefuse, hrefuse]
  exact ⟨rfl, h.memory, rfl, h.pc_eq⟩

/-! ### Programs -/

/-- A program goes the same way in memories that agree on its variables. -/
theorem alike_execution (language : Language) (p : Program) {s t : Machine}
    (h : s.AgreesOn p.names t) :
    (execution language p s).Alike (AgreesOn p.names) (execution language p t) := by
  have hstatements : Stmt.namesOfBlock p.statements ⊆ p.names := by
    cases p with
    | loop | whileDo => exact List.Subset.refl _
    | goto => exact List.nil_subset _
  have hput : ∀ m μ : Memory, m.AgreesOn p.names μ →
      AgreesOn p.names { s with memory := m } { t with memory := μ } :=
    fun m μ hm => ⟨hm, h.labels_eq, h.pc_eq⟩
  cases language with
  | loop => exact (Loop.alike_runBlock hstatements h.memory).map hput
  | whileDo => exact (While.alike_runBlock hstatements h.memory).map hput
  | goto =>
      unfold execution
      cases habsent : p.absent? with
      | some found => exact alike_refuse p.instructions.tail found h
      | none =>
          obtain ⟨is, rfl⟩ := Program.exists_of_absent? habsent
          refine alike_start (fun i hi => ?_) h.memory h.pc_eq
          exact Program.names_subset_of_mem (Program.parts_of_instructions hi)

theorem alike_evaluate (language : Language) (p : Program) {b₁ b₂ : List (String × Nat)}
    (h : ∀ x ∈ p.names, ∀ n,
      (x, .natural n) ∈ Inputs.ofNaturals b₁ ↔ (x, .natural n) ∈ Inputs.ofNaturals b₂)
    (s : Machine) :
    (s.evaluate language p (.ofNaturals b₁)).Alike (AgreesOn p.names)
      (s.evaluate language p (.ofNaturals b₂)) := by
  rw [evaluate_ofNaturals, evaluate_ofNaturals]
  exact alike_execution language p ⟨Inputs.agreesOn_memory h, rfl, rfl⟩

end Machine

/-! ### Variables that are not in the program -/

/-- The names that are not among the given ones have their initial values in the memory, and none if
they were not given any, and those that have one are still locked. -/
structure Memory.Spares (names : List String) (inputs : Inputs) (m : Memory) : Prop where
  get?_eq_some_iff : ∀ x, x ∉ names → ∀ v, m.store.get? x = some v ↔
    ∃ n : Nat, (x, .natural n) ∈ inputs ∧ v = n
  mem_locked : ∀ x, x ∉ names → ∀ v, m.store.get? x = some v → x ∈ m.locked

/-- An evaluation spares the variables that are not in its program. -/
theorem Machine.spares_evaluate (language : Language) (p : Program) (pairs : List (String × Nat))
    (s : Machine) :
    (s.evaluate language p (.ofNaturals pairs)).state.memory.Spares p.names
      (.ofNaturals pairs) := by
  obtain ⟨n, hn⟩ := memory_of_evaluate language p pairs s
  have hwrites : ∀ x, x ∉ p.names →
      valuesOf x (s.record language p (.ofNaturals pairs)).writes = [] :=
    fun x hx => valuesOf_eq_nil fun w hw heq => hx (heq ▸ mem_names_of_record hw)
  rw [hn]
  generalize (s.record language p (.ofNaturals pairs)).writes = ws at hwrites
  have hget : ∀ x, x ∉ p.names → ∀ v,
      ((Inputs.ofNaturals pairs).memory.assignAll ws).store.get? x = some v ↔
        ∃ n : Nat, (x, .natural n) ∈ Inputs.ofNaturals pairs ∧ v = n := by
    intro x hx v
    -- Without an assignment, locked or not, the value is the one from the beginning.
    rw [Memory.get?_assignAll, hwrites x hx, ← Inputs.holds_memory pairs x v]
    simp
  refine ⟨hget, fun x hx v hv => Memory.mem_locked_assignAll.mpr ⟨?_, hwrites x hx⟩⟩
  obtain ⟨k, hk, _⟩ := (hget x hx v).mp hv
  exact ((Inputs.bindAll_memory pairs).2.mem_locked x).mpr (List.mem_map_of_mem hk)

/-! ### Evaluations -/

namespace Program

/-- A run reads and writes no variables but those of its program.  With initial values that are the
same for these, a program ends alike, after the same number of steps and at the same position, and
leaves the same values for them; every other name that is left has kept its initial value and its
lock. -/
theorem evaluate_coincides (l : Language) (p : Program) {b₁ b₂ : List (String × Nat)}
    (h : ∀ x ∈ p.names, ∀ n,
      (x, .natural n) ∈ Inputs.ofNaturals b₁ ↔ (x, .natural n) ∈ Inputs.ofNaturals b₂)
    (s : Machine) :
    (s.evaluate l p (.ofNaturals b₁)).error? = (s.evaluate l p (.ofNaturals b₂)).error? ∧
    (s.evaluate l p (.ofNaturals b₁)).state.memory.steps =
      (s.evaluate l p (.ofNaturals b₂)).state.memory.steps ∧
    (s.evaluate l p (.ofNaturals b₁)).state.pc = (s.evaluate l p (.ofNaturals b₂)).state.pc ∧
    (∀ x ∈ p.names, (s.evaluate l p (.ofNaturals b₁)).state.memory.store.get? x =
      (s.evaluate l p (.ofNaturals b₂)).state.memory.store.get? x) ∧
    (s.evaluate l p (.ofNaturals b₁)).state.memory.Spares p.names (.ofNaturals b₁) ∧
    (s.evaluate l p (.ofNaturals b₂)).state.memory.Spares p.names (.ofNaturals b₂) := by
  have halike := Machine.alike_evaluate l p h s
  exact ⟨halike.error?_eq, halike.state.memory.steps_eq, halike.state.pc_eq,
    halike.state.memory.get?_eq, Machine.spares_evaluate l p b₁ s, Machine.spares_evaluate l p b₂ s⟩

/-- A countdown that is begun with a number for another variable, and with one for a third. -/
theorem evaluate_coincides_countdown :
    ∃ p, parse .whileDo "WHILE x > 0 DO x := x - 1; y := y + 2; END" = .ok p ∧
      (Machine.empty.evaluate .whileDo p (.ofNaturals [("x", 3), ("z", 4)])).error? =
        (Machine.empty.evaluate .whileDo p (.ofNaturals [("w", 1), ("x", 3)])).error? ∧
      (Machine.empty.evaluate .whileDo p
        (.ofNaturals [("w", 1), ("x", 3)])).state.memory.store.get? "y" = some 8 ∧
      (Machine.empty.evaluate .whileDo p
        (.ofNaturals [("w", 1), ("x", 3)])).state.memory.Spares p.names
          (.ofNaturals [("w", 1), ("x", 3)]) := by
  obtain ⟨p, hp, h⟩ :
      ∃ p, parse .whileDo "WHILE x > 0 DO x := x - 1; y := y + 2; END" = .ok p ∧
        (decide (p.names = ["x", "x", "x", "y", "y"]) &&
          decide ((Machine.empty.evaluate .whileDo p
            (.ofNaturals [("x", 3), ("z", 4)])).state.memory.store.get? "y" = some 8)) = true :=
    Except.exists_of_any (by decide +kernel)
  simp only [Bool.and_eq_true, decide_eq_true_eq] at h
  obtain ⟨hnames, hy⟩ := h
  have hagree : ∀ x ∈ p.names, ∀ n, (x, .natural n) ∈ Inputs.ofNaturals [("x", 3), ("z", 4)] ↔
      (x, .natural n) ∈ Inputs.ofNaturals [("w", 1), ("x", 3)] := by
    have hleft : Inputs.ofNaturals [("x", 3), ("z", 4)] =
        [("x", .natural 3), ("z", .natural 4)] := by decide +kernel
    have hright : Inputs.ofNaturals [("w", 1), ("x", 3)] =
        [("w", .natural 1), ("x", .natural 3)] := by decide +kernel
    rw [hnames, hleft, hright]
    simp
  obtain ⟨herror, _, _, hget, _, hspares⟩ := evaluate_coincides .whileDo p hagree .empty
  exact ⟨p, hp, herror, (hget "y" (by simp [hnames])).symm.trans hy, hspares⟩

end Program

end CounterPrograms
