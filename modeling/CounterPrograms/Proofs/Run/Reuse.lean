import CounterPrograms.Program.Parser
import CounterPrograms.Proofs.Run.Goto
import CounterPrograms.Run.Evaluate

/-!
# Machines that are used again

What a machine has done before makes no difference to an evaluation: its result is the same on every
machine, and so is the memory it leaves (`Machine.map_memory_evaluate`).  Only an error that comes
before the first instruction, while initial values are bound or labels are numbered, leaves a part
of the machine as it was (`Machine.evaluate_goto_cases`).  Such an error comes also from a program
that is none of the language, as it has no instructions.
-/

namespace CounterPrograms

/-! ### Errors before the first instruction -/

/-- An initial value is no natural number, or a label is repeated. -/
def RunError.Early : RunError → Prop
  | unfitValue .. | duplicateLabel _ => True
  | _ => False

theorem Expr.onlyRaises_eval (s : Store) (e : Expr) :
    (e.eval s).OnlyRaises fun err => ¬ err.Early := by
  induction e with
  | num n => exact .ok n
  | var name => exact .ok _
  | binary left op right ihl ihr =>
      refine ihl.bind fun a => ihr.bind fun b => ?_
      split
      · exact .ok _
      · exact .error id
  | foreign f => exact .error id

theorem Condition.onlyRaises_eval (s : Store) (c : Condition) :
    (c.eval s).OnlyRaises fun err => ¬ err.Early := by
  refine (c.left.onlyRaises_eval s).bind fun a => (c.right.onlyRaises_eval s).bind fun b => ?_
  split
  · exact .ok _
  · exact .error id

/-- Initial values are bound, or the first that is no natural number stops it. -/
theorem Memory.bindAll_eq_raised {inputs : Inputs} {m m' : Memory} {e : RunError}
    (h : bindAll inputs m = .raised e m') : ∃ x shown, e = .unfitValue x shown := by
  induction inputs generalizing m with
  | nil => cases h
  | cons i inputs ih =>
      obtain ⟨x, v⟩ := i
      cases v with
      | natural n => exact ih h
      | unfit shown => exact ⟨x, shown, (Outcome.raised.inj h).1.symm⟩

namespace Machine

theorem not_early_of_execute {s t : Machine} {st : Stmt} {e : RunError}
    (h : s.execute st = .failed e t) : ¬ e.Early := by
  cases st with
  | assign x f =>
      rw [execute] at h
      split at h
      · cases h
      · next herr =>
          obtain ⟨rfl, _⟩ := Step.failed.inj h
          exact Expr.onlyRaises_eval _ _ _ herr
  | goto l =>
      obtain ⟨_, rfl, _⟩ := jump_eq_failed h
      exact id
  | ifGoto c l =>
      rw [execute] at h
      split at h
      · obtain ⟨_, rfl, _⟩ := jump_eq_failed h
        exact id
      · cases h
      · next herr =>
          obtain ⟨rfl, _⟩ := Step.failed.inj h
          exact Condition.onlyRaises_eval _ _ _ herr
  | halt => cases h
  | loop | whileDo | ifThen | foreign =>
      obtain ⟨rfl, _⟩ := Step.failed.inj h
      exact id

/-- Once the first instruction has been reached, the errors are others. -/
theorem not_early_of_run {code : List Instruction} {left : Nat} {s t : Machine} {e : RunError}
    (h : run code left s = .raised e t) : ¬ e.Early := by
  rcases exists_of_run_raised h with rfl | ⟨i, _, u, _, hfailed⟩
  · exact id
  · exact not_early_of_execute hfailed

/-! ### What an evaluation depends on -/

/-- Once the initial values are bound, a program has a repeated label, or runs as on every other
machine. -/
theorem start_cases (code : List Instruction) (m : Memory) :
    (∃ l before, ∀ s : Machine, start code { s with memory := m } =
      .raised (.duplicateLabel l) { s with memory := m, labels := before }) ∨
    ∃ o : Outcome Machine, (∀ s : Machine, start code { s with memory := m } = o) ∧
      ∀ e ∈ o.error?, ¬ e.Early := by
  unfold start
  cases Labels.table 0 code with
  | error r => exact .inl ⟨r.label, r.before, fun _ => rfl⟩
  | ok labels =>
      refine .inr ⟨run code (stepLimit - m.steps) ⟨m, labels, 0⟩, fun _ => rfl, fun e he => ?_⟩
      obtain ⟨t, ht⟩ := Outcome.exists_of_error?_eq_some he
      exact not_early_of_run ht

/-- An evaluation as a GOTO program leaves the labels and the position if an initial value cannot be
bound, leaves the position if a label is repeated or a place without instruction is found, and
otherwise leaves nothing of the machine on which it is run. -/
theorem evaluate_goto_cases (p : Program) (inputs : Inputs) :
    (∃ x shown m, ∀ s : Machine, s.evaluate .goto p inputs =
      .raised (.unfitValue x shown) { s with memory := m }) ∨
    (∃ l before m, ∀ s : Machine, s.evaluate .goto p inputs =
      .raised (.duplicateLabel l) { s with memory := m, labels := before }) ∨
    (∃ found position labels m, p.absent? = some found ∧ ∀ s : Machine,
      s.evaluate .goto p inputs =
        .raised (.unknownInstruction position found) { s with memory := m, labels := labels }) ∨
    (p.absent? = none ∧ ∃ o : Outcome Machine, (∀ s : Machine, s.evaluate .goto p inputs = o) ∧
      ∀ e ∈ o.error?, ¬ e.Early) := by
  cases hm : Memory.bindAll inputs .empty with
  | raised e m =>
      obtain ⟨x, shown, rfl⟩ := Memory.bindAll_eq_raised hm
      refine .inl ⟨x, shown, m, fun s => ?_⟩
      rw [evaluate, hm]
      rfl
  | returned m =>
      cases habsent : p.absent? with
      | some found =>
          obtain ⟨e, labels, herror, hrefuse⟩ := exists_refuse_eq p.instructions.tail found
          have h : ∀ s : Machine, s.evaluate .goto p inputs =
              .raised e { s with memory := m, labels := labels } :=
            fun s => (evaluate_goto_absent hm habsent s).trans (hrefuse _)
          rcases herror with ⟨l, rfl⟩ | ⟨n, rfl⟩
          · exact .inr (.inl ⟨l, labels, m, h⟩)
          · exact .inr (.inr (.inl ⟨found, n, labels, m, rfl, h⟩))
      | none =>
          obtain ⟨is, rfl⟩ := Program.exists_of_absent? habsent
          rcases start_cases is m with ⟨l, before, h⟩ | ⟨o, h, hearly⟩
          · exact .inr (.inl ⟨l, before, m, fun s => (evaluate_goto hm habsent s).trans (h s)⟩)
          · refine .inr (.inr (.inr ⟨rfl, o, fun s => ?_, hearly⟩))
            exact (evaluate_goto hm habsent s).trans (h s)

theorem map_memory_andThen (o : Outcome Memory) (run : Memory → Outcome Memory) (s : Machine) :
    ((o.map fun m => { s with memory := m }).andThen fun t =>
      (run t.memory).map fun m => { t with memory := m }).map memory = o.andThen run := by
  cases o with
  | raised e m => rfl
  | returned m =>
      show ((run m).map _).map _ = run m
      cases run m <;> rfl

/-- The result of an evaluation and the memory that it leaves are the same on every machine. -/
theorem map_memory_evaluate (language : Language) (p : Program) (inputs : Inputs)
    (s₁ s₂ : Machine) :
    (s₁.evaluate language p inputs).map memory = (s₂.evaluate language p inputs).map memory := by
  cases language with
  | loop =>
      exact (map_memory_andThen _ (Loop.runBlock p.statements) s₁).trans
        (map_memory_andThen _ (Loop.runBlock p.statements) s₂).symm
  | whileDo =>
      exact (map_memory_andThen _ (While.runBlock p.statements) s₁).trans
        (map_memory_andThen _ (While.runBlock p.statements) s₂).symm
  | goto =>
      rcases evaluate_goto_cases p inputs with ⟨_, _, _, h⟩ | ⟨_, _, _, h⟩ | ⟨_, _, _, _, _, h⟩ |
        ⟨_, _, h, _⟩ <;> rw [h s₁, h s₂] <;> rfl

/-- Two machines, whatever they have evaluated before and however that ended, evaluate a program to
the same result and are left with the same memory.  After a GOTO program their labels are the same
too, unless an initial value could not be bound, and so are their positions, unless this, a repeated
label or a place without instruction stopped the evaluation; in these cases the labels and the
position, or the position alone, are those from before.  Where nothing else is wrong, the error says
what was found in place of an instruction. -/
theorem evaluate_reused (p : Program) (inputs : Inputs) (s₁ s₂ : Machine) :
    (∀ l, (s₁.evaluate l p inputs).map memory = (s₂.evaluate l p inputs).map memory) ∧
    (∀ x shown, (s₁.evaluate .goto p inputs).error? = some (.unfitValue x shown) →
      (s₁.evaluate .goto p inputs).state.labels = s₁.labels ∧
      (s₁.evaluate .goto p inputs).state.pc = s₁.pc) ∧
    (∀ k, (s₁.evaluate .goto p inputs).error? = some (.duplicateLabel k) →
      (s₁.evaluate .goto p inputs).state.pc = s₁.pc) ∧
    (∀ found, p.absent? = some found → (s₁.evaluate .goto p inputs).state.pc = s₁.pc) ∧
    ((∀ x shown, (s₁.evaluate .goto p inputs).error? ≠ some (.unfitValue x shown)) →
      (s₁.evaluate .goto p inputs).state.labels = (s₂.evaluate .goto p inputs).state.labels ∧
      ((∀ k, (s₁.evaluate .goto p inputs).error? ≠ some (.duplicateLabel k)) →
        (∀ found, p.absent? = some found → ∃ position,
          (s₁.evaluate .goto p inputs).error? = some (.unknownInstruction position found)) ∧
        (p.absent? = none →
          (s₁.evaluate .goto p inputs).state.pc = (s₂.evaluate .goto p inputs).state.pc))) := by
  refine ⟨fun l => map_memory_evaluate l p inputs s₁ s₂, ?_⟩
  rcases evaluate_goto_cases p inputs with ⟨x, shown, m, h⟩ | ⟨l, before, m, h⟩ |
    ⟨found, position, labels, m, habsent, h⟩ | ⟨hpresent, o, h, hearly⟩
  · rw [h s₁, h s₂]
    exact ⟨fun _ _ _ => ⟨rfl, rfl⟩, fun _ _ => rfl, fun _ _ => rfl,
      fun hfit => absurd rfl (hfit x shown)⟩
  · rw [h s₁, h s₂]
    exact ⟨nofun, fun _ _ => rfl, fun _ _ => rfl, fun _ => ⟨rfl, fun hk => absurd rfl (hk l)⟩⟩
  · rw [h s₁, h s₂, habsent]
    refine ⟨nofun, nofun, fun _ _ => rfl, fun _ => ⟨rfl, fun _ => ⟨fun found' hfound => ?_, nofun⟩⟩⟩
    obtain rfl := Option.some.inj hfound
    exact ⟨position, rfl⟩
  · rw [h s₁, h s₂, hpresent]
    refine ⟨fun x shown he => ?_, fun k he => ?_, nofun, fun _ => ⟨rfl, fun _ => ⟨nofun, ?_⟩⟩⟩
    · exact (hearly _ he trivial).elim
    · exact (hearly _ he trivial).elim
    · exact fun _ => rfl

/-- A machine that has missed a label and one that has stopped at a repeated one evaluate a program
alike. -/
theorem evaluate_reused_after_errors :
    ∃ p q r, Program.parse .goto "x := 1; GOTO a;" = .ok p ∧
      Program.parse .goto "a: x := 1; a: HALT;" = .ok q ∧
      Program.parse .goto "b: y := y + x; IF y < 3 THEN GOTO b;" = .ok r ∧
      (empty.evaluate .goto p .none).state ≠
        (empty.evaluate .goto q (.ofNaturals [("y", 2)])).state ∧
      ((empty.evaluate .goto p .none).state.evaluate .goto r (.ofNaturals [("x", 2)])).map memory =
        ((empty.evaluate .goto q (.ofNaturals [("y", 2)])).state.evaluate .goto r
          (.ofNaturals [("x", 2)])).map memory ∧
      ((empty.evaluate .goto p .none).state.evaluate .goto r (.ofNaturals [("x", 2)])).state.labels =
        ((empty.evaluate .goto q (.ofNaturals [("y", 2)])).state.evaluate .goto r
          (.ofNaturals [("x", 2)])).state.labels ∧
      ((empty.evaluate .goto p .none).state.evaluate .goto r (.ofNaturals [("x", 2)])).state.pc =
        ((empty.evaluate .goto q (.ofNaturals [("y", 2)])).state.evaluate .goto r
          (.ofNaturals [("x", 2)])).state.pc := by
  obtain ⟨p, hp, hrest⟩ : ∃ p, Program.parse .goto "x := 1; GOTO a;" = .ok p ∧
      ((Program.parse .goto "a: x := 1; a: HALT;").toOption.any fun q =>
        (Program.parse .goto "b: y := y + x; IF y < 3 THEN GOTO b;").toOption.any fun r =>
          decide ((empty.evaluate .goto p .none).state ≠
            (empty.evaluate .goto q (.ofNaturals [("y", 2)])).state) &&
          decide (((empty.evaluate .goto p .none).state.evaluate .goto r
            (.ofNaturals [("x", 2)])).error? = none) &&
          decide (r.absent? = none)) = true :=
    Except.exists_of_any (by decide +kernel)
  obtain ⟨q, hq, hrest⟩ := Except.exists_of_any hrest
  obtain ⟨r, hr, hrest⟩ := Except.exists_of_any hrest
  simp only [Bool.and_eq_true, decide_eq_true_eq] at hrest
  obtain ⟨⟨hne, hreturned⟩, hpresent⟩ := hrest
  obtain ⟨hmemory, _, _, _, hothers⟩ := evaluate_reused r (.ofNaturals [("x", 2)])
    (empty.evaluate .goto p .none).state (empty.evaluate .goto q (.ofNaturals [("y", 2)])).state
  have hfit : ∀ x shown, ((empty.evaluate .goto p .none).state.evaluate .goto r
      (.ofNaturals [("x", 2)])).error? ≠ some (.unfitValue x shown) := by
    intro x shown
    rw [hreturned]
    exact nofun
  have hdistinct : ∀ k, ((empty.evaluate .goto p .none).state.evaluate .goto r
      (.ofNaturals [("x", 2)])).error? ≠ some (.duplicateLabel k) := by
    intro k
    rw [hreturned]
    exact nofun
  obtain ⟨hlabels, hpc⟩ := hothers hfit
  exact ⟨p, q, r, hp, hq, hr, hne, hmemory .goto, hlabels, (hpc hdistinct).2 hpresent⟩

/-- A machine that has evaluated a GOTO program and one that has not, both given a LOOP program as
one of GOTO: no initial value is wrong and no label repeated, but they stand at different
positions. -/
theorem evaluate_reused_other_kind :
    ∃ p, Program.parse .goto "x := 1;" = .ok p ∧
      (empty.evaluate .goto (.loop []) .none).error? =
        some (.unknownInstruction 1 (.missing "LoopProgram" "instructions")) ∧
      ((empty.evaluate .goto p .none).state.evaluate .goto (.loop []) .none).error? =
        some (.unknownInstruction 1 (.missing "LoopProgram" "instructions")) ∧
      ((empty.evaluate .goto p .none).state.evaluate .goto (.loop []) .none).state.pc ≠
        (empty.evaluate .goto (.loop []) .none).state.pc := by
  obtain ⟨p, hp, h⟩ : ∃ p, Program.parse .goto "x := 1;" = .ok p ∧
      (decide (((empty.evaluate .goto p .none).state.evaluate .goto (.loop []) .none).error? =
        some (.unknownInstruction 1 (.missing "LoopProgram" "instructions"))) &&
      decide (((empty.evaluate .goto p .none).state.evaluate .goto (.loop []) .none).state.pc ≠
        (empty.evaluate .goto (.loop []) .none).state.pc)) = true :=
    Except.exists_of_any (by decide +kernel)
  simp only [Bool.and_eq_true, decide_eq_true_eq] at h
  exact ⟨p, hp, by decide, h.1, h.2⟩

end Machine

end CounterPrograms
