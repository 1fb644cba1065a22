import CounterPrograms.Compile.Between
import CounterPrograms.Proofs.Compile.Fresh
import CounterPrograms.Proofs.Compile.GotoToWhile.Dispatch

/-!
# Evaluating compiled GOTO programs

A compiled program sets its counter and begins the loop, so it checks its condition two times more
than the machine moves backward (`GotoToWhile.exec_of_halts_compiled`).  As the first move of a
halting run leads forward, these are not more checks than instructions, and what the GOTO program
returns within its limit the compiled program returns within its own
(`GotoToWhile.evaluate_gotoToWhile`).
-/

namespace CounterPrograms

namespace GotoToWhile

open Machine

/-- The statements of the simulation with the counter `c`. -/
def simulationCode (c : String) (is : List Instruction) (body : List Stmt) : List Stmt :=
  [(layout c is).moveTo 1, dispatchLoop c body]

theorem mem_names_simulationCode {c : String} {is : List Instruction} {body : List Stmt}
    (h : Dispatches c is body) {x : String} :
    x ∈ Stmt.namesOfBlock (simulationCode c is body) ↔ x ∈ (Program.goto is).names ∨ x = c := by
  have hcode : x ∈ Stmt.namesOfBlock (simulationCode c is body) ↔
      x = c ∨ x ∈ Stmt.namesOfBlock body := by
    simp [simulationCode, dispatchLoop, Layout.moveTo, layout, Stmt.namesOfBlock, Stmt.names,
      Condition.names, Expr.names]
  rw [hcode]
  constructor
  · rintro (rfl | hx)
    · exact .inr rfl
    · exact h.names_cases hx
  · rintro (hx | rfl)
    · exact .inr (h.mem_names hx)
    · exact .inl rfl

/-- The variable that simulates the position in a compiled program, if it has instructions. -/
def counterVariables (is : List Instruction) (reserved : List String) : List String :=
  (attempt (.goto is) reserved).counter.toList

theorem dispatches_of_simulation {c : String} {is : List Instruction} {q : Program}
    (h : ((layout c is).simulation is).map Program.whileDo = .ok q) :
    ∃ body, Dispatches c is body ∧ q = .whileDo (simulationCode c is body) := by
  cases hbody : (layout c is).cases 1 is with
  | error e =>
      rw [Layout.simulation, hbody] at h
      cases h
  | ok body =>
      rw [Layout.simulation, hbody] at h
      exact ⟨body, dispatches_of_cases hbody, (Except.ok.inj h).symm⟩

/-- What compiling a GOTO program gives: nothing where there is no instruction, and otherwise a
simulation with a new counter. -/
theorem simulation_of_gotoToWhile {is : List Instruction} {reserved : List String} {q : Program}
    (hq : (Program.goto is).gotoToWhile reserved = .ok q) :
    (is = [] ∧ q = .whileDo [] ∧ counterVariables is reserved = []) ∨
    ∃ f c body, Fresh.above ((Program.goto is).names ++ reserved) = .ok f ∧
      c = Fresh.variableName f.nextVariable ∧ Dispatches c is body ∧
      q = .whileDo (simulationCode c is body) ∧ counterVariables is reserved = [c] ∧ is ≠ [] := by
  unfold counterVariables
  unfold Program.gotoToWhile at hq
  generalize ha : attempt (.goto is) reserved = a at hq
  unfold attempt at ha
  split at ha
  · subst ha
    cases hq
  · next f hf =>
      split at ha
      · subst ha
        cases hq
      · next positions hp =>
          obtain ⟨rfl, _⟩ := Labels.table_eq_ok_iff.mp hp
          split at ha
          · next hempty =>
              subst ha
              exact .inl ⟨List.isEmpty_iff.mp hempty, (Except.ok.inj hq).symm, rfl⟩
          · next hempty =>
              split at ha
              · subst ha
                cases hq
              · next c g hc =>
                  subst ha
                  obtain ⟨rfl, _⟩ := Fresh.newVariable_eq_ok hc
                  obtain ⟨body, hd, rfl⟩ := dispatches_of_simulation hq
                  refine .inr ⟨f, _, body, hf, rfl, hd, rfl, rfl, ?_⟩
                  exact fun hnil => hempty (List.isEmpty_iff.mpr hnil)

/-- The counter of a compiled program is none of the names that were in use. -/
theorem cases_of_gotoToWhile {is : List Instruction} {reserved : List String} {q : Program}
    (hq : (Program.goto is).gotoToWhile reserved = .ok q) :
    (is = [] ∧ q = .whileDo [] ∧ counterVariables is reserved = []) ∨
    ∃ c body, Dispatches c is body ∧ q = .whileDo (simulationCode c is body) ∧
      counterVariables is reserved = [c] ∧ is ≠ [] ∧
      ∀ x ∈ [c], x ∉ (Program.goto is).names ++ reserved := by
  refine (simulation_of_gotoToWhile hq).imp_right ?_
  rintro ⟨f, c, body, hf, rfl, hd, rfl, hc, hne⟩
  refine ⟨_, body, hd, rfl, hc, hne, ?_⟩
  rw [List.forall_mem_singleton]
  exact Fresh.variableName_not_mem_of_above hf (Nat.le_refl _)

/-- A run of the machine from the first instruction is a run of the simulation. -/
theorem exec_of_halts_compiled {c : String} {is : List Instruction} {body : List Stmt}
    (hd : Dispatches c is body) (hn : ∀ x ∈ (Program.goto is).names, x ∉ [c])
    {path : List Nat} {s t : Machine} (h : Halts is path s t) (hne : is ≠ [])
    (hl : s.labels = Labels.carried 0 is) (hpc : s.pc = 0) {μ : Memory}
    (ha : s.memory.AgreesBut [c] μ) :
    ∃ μ', While.Exec (simulationCode c is body) (backwardMoves path + 2) μ μ' ∧
      t.memory.AgreesBut [c] μ' ∧ μ'.store.get? c = some 0 := by
  have hlt : s.pc < is.length := hpc ▸ List.length_pos_iff.mpr hne
  obtain ⟨μ₁, hmove, ha₁, hc₁⟩ := exec_moveTo is ha 1
  have hat : counterAt is s.pc = 1 := by
    rw [counterAt, if_pos hlt, hpc]
    rfl
  obtain ⟨μ₂, μ', hpass, hloop, ha', hc'⟩ := exec_of_halts hd hn h hl hlt (Nat.zero_le _)
    ha₁.count_right (hc₁.trans (congrArg some hat.symm))
  have hrun : While.Exec [dispatchLoop c body] (backwardMoves path + 2) μ₁ μ' := by
    have hchecks : backwardMoves path + 2 = 0 + (backwardMoves path + 1) + 1 := by omega
    rw [hchecks]
    exact .whileTrue (eval_running hc₁) hpass hloop
  refine ⟨μ', ?_, ha', hc'⟩
  rw [← Nat.zero_add (backwardMoves path + 2)]
  exact hmove.append hrun

end GotoToWhile

/-- GOTO programs keep their meaning as WHILE programs: if a program returns, the compiled program
returns too, with the same values but for its counter, which is zero in the end. -/
theorem GotoToWhile.evaluate_gotoToWhile {is : List Instruction} {reserved : List String}
    {q : Program} {pairs : List (String × Nat)}
    (hq : (Program.goto is).gotoToWhile reserved = .ok q)
    (hnames : ∀ x ∈ (Inputs.ofNaturals pairs).names, x ∈ reserved ∨ x ∈ (Program.goto is).names)
    {s₁ t₁ : Machine} (h₁ : s₁.evaluate .goto (.goto is) (.ofNaturals pairs) = .returned t₁)
    (s₂ : Machine) :
    ∃ t₂, s₂.evaluate .whileDo q (.ofNaturals pairs) = .returned t₂ ∧
      t₁.memory.store.IsWithout (GotoToWhile.counterVariables is reserved) t₂.memory.store ∧
      (is ≠ [] → ∃ c, GotoToWhile.counterVariables is reserved = [c] ∧
        t₂.memory.store.get? c = some 0) := by
  obtain ⟨m, hm, hi⟩ := Memory.bindAll_ofNaturals pairs
  obtain ⟨_, path, hr, hlen⟩ :=
    Machine.start_eq_returned_iff.mp (Machine.start_of_evaluate hm h₁)
  rcases GotoToWhile.cases_of_gotoToWhile hq with ⟨rfl, rfl, hc⟩ | ⟨c, body, hd, rfl, hc, hne, hnew⟩
  · obtain rfl := hr.eq_of_nil
    have ha : m.AgreesBut [] m := hi.agreesBut fun _ hx => absurd hx List.not_mem_nil
    refine ⟨{ s₂ with memory := m }, ?_, ?_, fun hne => absurd rfl hne⟩
    · rw [Machine.evaluate_whileDo hm]
      rfl
    · rw [hc]
      exact ha.store
  · have hown : ∀ x ∈ (Program.goto is).names, x ∉ [c] :=
      fun x hx hc => hnew x hc (List.mem_append_left _ hx)
    have ha := hi.agreesBut_of_new hnames hnew
    obtain ⟨μ', hex, ha', hzero⟩ :=
      GotoToWhile.exec_of_halts_compiled hd hown hr hne rfl rfl ha
    have hbackward := hr.backwardMoves_add_two_le rfl
    have hlimit : m.steps + (Machine.backwardMoves path + 2) ≤ stepLimit := by
      have hpath : path.length ≤ stepLimit - m.steps := hlen
      rw [hi.steps] at hpath ⊢
      have htwo : 2 ≤ stepLimit := by decide
      omega
    refine ⟨{ s₂ with memory := μ' }, ?_, ?_, fun _ => ⟨c, hc, hzero⟩⟩
    · rw [Machine.evaluate_whileDo hm, While.runBlock_of_exec hex hlimit]
      rfl
    · rw [hc]
      exact ha'.store

/-- A loop of jumps with a way out that leads forward, and an instruction that is never reached. -/
def GotoToWhile.jumping : List Instruction :=
  [⟨.ifGoto ⟨.var "a", Comparison.eq.symbol, .num 0⟩ "end", some "start"⟩,
    ⟨.assign "a" (.binary (.var "a") Arithmetic.sub.symbol (.num 1)), none⟩,
    ⟨.assign "y" (.binary (.var "y") Arithmetic.add.symbol (.var "x4")), none⟩,
    ⟨.goto "start", none⟩,
    ⟨.assign "y" (.num 0), none⟩,
    ⟨.halt, some "end"⟩]

theorem GotoToWhile.evaluate_gotoToWhile_jumping :
    ∃ q t₁ t₂, (Program.goto jumping).gotoToWhile ["z"] = .ok q ∧
      Machine.empty.evaluate .goto (.goto jumping) (.ofNaturals [("a", 2), ("x4", 3), ("z", 1)]) =
        .returned t₁ ∧
      Machine.empty.evaluate .whileDo q (.ofNaturals [("a", 2), ("x4", 3), ("z", 1)]) =
        .returned t₂ ∧
      t₁.memory.store.IsWithout (counterVariables jumping ["z"]) t₂.memory.store ∧
      ∃ c, counterVariables jumping ["z"] = [c] ∧ t₂.memory.store.get? c = some 0 := by
  have hn : ∀ x ∈ (Inputs.ofNaturals [("a", 2), ("x4", 3), ("z", 1)]).names,
      x ∈ ["z"] ∨ x ∈ (Program.goto jumping).names := by
    decide
  obtain ⟨q, hq, _⟩ : ∃ q, (Program.goto jumping).gotoToWhile ["z"] = .ok q ∧ true = true :=
    Except.exists_of_any (by decide +kernel)
  obtain ⟨t₁, h₁⟩ : ∃ t₁, Machine.empty.evaluate .goto (.goto jumping)
      (.ofNaturals [("a", 2), ("x4", 3), ("z", 1)]) = .returned t₁ :=
    Outcome.exists_of_error?_eq_none (by decide +kernel)
  obtain ⟨t₂, h₂, hstore, hc⟩ := GotoToWhile.evaluate_gotoToWhile hq hn h₁ .empty
  exact ⟨q, t₁, t₂, hq, h₁, h₂, hstore, hc (List.cons_ne_nil _ _)⟩

end CounterPrograms
