import CounterPrograms.Proofs.Program.Proper
import CounterPrograms.Proofs.Run.While

/-!
# WHILE programs cut at the limit

`While.Yields ss k σ locked σ'` is the meaning of a block apart from any limit, as a relation between
stores: the count that a memory keeps plays no part in it (`While.Exec.recount`).

The interpreter is this meaning cut at `stepLimit` checks.  A run stays within the limit or is
stopped by the first check beyond it (`While.withinLimit_runBlock`), so the interpreter returns
exactly what is yielded within the limit, and raises `stepLimit` for whatever needs more checks or
never ends (`Program.evaluate_whileDo_iff`).
-/

namespace CounterPrograms

/-! ### Within the limit or stopped by it -/

/-- The run has returned within the limit, or the first step beyond the limit has stopped it. -/
def Outcome.WithinLimit : Outcome Memory → Prop
  | returned m => m.steps ≤ stepLimit
  | raised e m => e = .stepLimit ∧ m.steps = stepLimit + 1

theorem Outcome.WithinLimit.andThen {o : Outcome Memory} {next : Memory → Outcome Memory}
    (h : o.WithinLimit) (hnext : ∀ m, m.steps ≤ stepLimit → (next m).WithinLimit) :
    (o.andThen next).WithinLimit := by
  cases o with
  | returned m => exact hnext m h
  | raised e m => exact h

theorem Outcome.WithinLimit.exists_raised {o : Outcome Memory} (h : o.WithinLimit)
    (hnot : ∀ m, o ≠ .returned m) :
    ∃ m, o = .raised .stepLimit m ∧ m.steps = stepLimit + 1 := by
  cases o with
  | returned m => exact absurd rfl (hnot m)
  | raised e m =>
      obtain ⟨rfl, hsteps⟩ := h
      exact ⟨m, rfl, hsteps⟩

namespace Memory

variable {m : Memory}

theorem withinLimit_tick (hm : m.steps ≤ stepLimit) : m.tick.WithinLimit := by
  by_cases hlt : m.steps < stepLimit
  · rw [tick_of_lt hlt]
    exact hlt
  · have hsteps : m.count.steps = stepLimit + 1 := by
      rw [steps_count]
      omega
    rw [tick_of_not_lt hlt]
    exact ⟨rfl, hsteps⟩

theorem withinLimit_runAssign {x : String} {e : Expr} (he : e.Proper) (hm : m.steps ≤ stepLimit) :
    (m.runAssign x e).WithinLimit := by
  obtain ⟨n, hn⟩ := he.eval_ok m.store
  have hsteps : (m.assign x n).steps ≤ stepLimit := by rwa [steps_assign]
  rw [runAssign_of_eval hn]
  exact hsteps

theorem withinLimit_test {c : Condition} {next : Bool → Outcome Memory} (hc : c.Proper)
    (hnext : ∀ b, (next b).WithinLimit) : (m.test c next).WithinLimit := by
  obtain ⟨b, hb⟩ := hc.eval_ok m.store
  rw [test_of_eval hb]
  exact hnext b

end Memory

namespace While

theorem withinLimit_repeatWhile {c : Condition} {body : Memory → Outcome Memory} (hc : c.Proper)
    (hbody : ∀ m, m.steps ≤ stepLimit → (body m).WithinLimit) {checks : Nat} {m : Memory}
    (hm : m.steps ≤ stepLimit) : (repeatWhile c body checks m).WithinLimit := by
  induction checks generalizing m with
  | zero => exact Memory.withinLimit_tick hm
  | succ checks ih =>
      refine (Memory.withinLimit_tick hm).andThen fun m hm => ?_
      refine Memory.withinLimit_test hc fun b => ?_
      cases b with
      | false => exact hm
      | true => exact (hbody m hm).andThen fun _ => ih

/-- A block returns within the limit, or the first check beyond the limit stops it. -/
theorem withinLimit_runBlock {ss : List Stmt} (hs : Block ss) {m : Memory}
    (hm : m.steps ≤ stepLimit) : (runBlock ss m).WithinLimit := by
  induction hs generalizing m with
  | nil => exact hm
  | assign he _ ih => exact (Memory.withinLimit_runAssign he hm).andThen fun _ => ih
  | whileDo hc _ _ ihb ihr =>
      exact (withinLimit_repeatWhile hc (fun _ => ihb) hm).andThen fun _ => ihr
  | ifThen hc _ _ iht ihr =>
      rw [runBlock_ifThen]
      refine Memory.withinLimit_test hc fun b => ?_
      cases b with
      | true => exact (iht hm).andThen fun _ => ihr
      | false => exact ihr hm
  | ifElse hc _ _ _ iht ihe ihr =>
      rw [runBlock_ifThen]
      refine Memory.withinLimit_test hc fun b => ?_
      cases b with
      | true => exact (iht hm).andThen fun _ => ihr
      | false => exact (ihe hm).andThen fun _ => ihr

/-! ### The meaning as a relation between stores -/

theorem Exec.recount {ss : List Stmt} {k : Nat} {m m' : Memory} (h : Exec ss k m m') (n : Nat) :
    Exec ss k { m with steps := n } { m' with steps := n + k } := by
  induction h generalizing n with
  | nil m => exact .nil _
  | assign he _ ih =>
      refine .assign he ?_
      rw [Memory.assign_with_steps]
      exact ih n
  | @whileTrue _ _ _ k₁ k₂ _ _ _ hc _ _ ih₁ ih₂ =>
      have hsteps : n + (k₁ + k₂ + 1) = n + 1 + k₁ + k₂ := by omega
      rw [hsteps]
      exact .whileTrue hc (ih₁ (n + 1)) (ih₂ (n + 1 + k₁))
  | @whileFalse _ _ _ k _ _ hc _ ih =>
      have hsteps : n + (k + 1) = n + 1 + k := by omega
      rw [hsteps]
      exact .whileFalse hc (ih (n + 1))
  | ifTrue hc _ _ ih₁ ih₂ =>
      rw [← Nat.add_assoc]
      exact .ifTrue hc (ih₁ n) (ih₂ _)
  | ifFalse hc _ _ ih₁ ih₂ =>
      rw [← Nat.add_assoc]
      exact .ifFalse hc (ih₁ n) (ih₂ _)

/-- Begun with the store `σ` and the locked names `locked`, a block ends with the store `σ'` after
`k` checks of loop conditions, whatever has been counted before. -/
def Yields (ss : List Stmt) (k : Nat) (σ : Store) (locked : List String) (σ' : Store) : Prop :=
  ∃ m m', m.store = σ ∧ m.locked = locked ∧ Exec ss k m m' ∧ m'.store = σ'

/-- What a block yields is what it ends with from any memory with the same values and locks. -/
theorem yields_iff {ss : List Stmt} {k : Nat} {m : Memory} {σ : Store} :
    Yields ss k m.store m.locked σ ↔ ∃ m', Exec ss k m m' ∧ m'.store = σ := by
  constructor
  · rintro ⟨⟨_, _, _⟩, m', rfl, rfl, hex, rfl⟩
    exact ⟨_, hex.recount m.steps, rfl⟩
  · rintro ⟨m', hex, hσ⟩
    exact ⟨m, m', rfl, rfl, hex, hσ⟩

/-- A block begun with a memory that has counted nothing yields what it returns, after as many
checks as have been counted, and these are within the limit. -/
theorem yields_iff_runBlock {ss : List Stmt} (hs : Block ss) {m : Memory} (hm : m.steps = 0)
    {σ : Store} {k : Nat} :
    (∃ m', runBlock ss m = .returned m' ∧ m'.store = σ ∧ m'.steps = k) ↔
      Yields ss k m.store m.locked σ ∧ k ≤ stepLimit := by
  rw [yields_iff]
  constructor
  · rintro ⟨m', hr, hσ, rfl⟩
    obtain ⟨k, hex⟩ := exec_of_runBlock hr
    have hlimit : (runBlock ss m).WithinLimit := withinLimit_runBlock hs (by omega)
    rw [hr] at hlimit
    have hsteps : m'.steps = k := by rw [hex.steps_eq, hm, Nat.zero_add]
    refine ⟨⟨m', ?_, hσ⟩, hlimit⟩
    rwa [hsteps]
  · rintro ⟨⟨m', hex, hσ⟩, hk⟩
    refine ⟨m', runBlock_of_exec hex (by omega), hσ, ?_⟩
    rw [hex.steps_eq, hm, Nat.zero_add]

end While

namespace Program

/-- The interpreter of WHILE programs is their meaning cut at `stepLimit` checks: it returns what a
program yields within the limit, with as many steps counted as conditions were checked, and
otherwise the check after the last one allowed stops it. -/
theorem evaluate_whileDo_iff {text : String} {p : Program} (hp : parse .whileDo text = .ok p)
    (pairs : List (String × Nat)) (s : Machine) :
    (∀ σ k, (∃ t, s.evaluate .whileDo p (.ofNaturals pairs) = .returned t ∧
        t.memory.store = σ ∧ t.memory.steps = k) ↔
      While.Yields p.statements k (Inputs.ofNaturals pairs).memory.store
        (Inputs.ofNaturals pairs).memory.locked σ ∧ k ≤ stepLimit) ∧
    ((¬ ∃ σ k, While.Yields p.statements k (Inputs.ofNaturals pairs).memory.store
        (Inputs.ofNaturals pairs).memory.locked σ ∧ k ≤ stepLimit) →
      ∃ t, s.evaluate .whileDo p (.ofNaturals pairs) = .raised .stepLimit t ∧
        t.memory.steps = stepLimit + 1) := by
  obtain ⟨ss, rfl, hs⟩ := block_of_parse_whileDo hp
  obtain ⟨hm, hi⟩ := Inputs.bindAll_memory pairs
  generalize (Inputs.ofNaturals pairs).memory = m at hm hi ⊢
  have hreturned : ∀ σ k, (∃ t, s.evaluate .whileDo (.whileDo ss) (.ofNaturals pairs) =
        .returned t ∧ t.memory.store = σ ∧ t.memory.steps = k) ↔
      While.Yields ss k m.store m.locked σ ∧ k ≤ stepLimit := by
    intro σ k
    rw [Machine.evaluate_whileDo hm, ← While.yields_iff_runBlock hs hi.steps]
    constructor
    · rintro ⟨t, ht, hσ, hk⟩
      obtain ⟨m', hr, rfl⟩ := Outcome.map_eq_returned_iff.mp ht
      exact ⟨m', hr, hσ, hk⟩
    · rintro ⟨m', hr, hσ, hk⟩
      exact ⟨{ s with memory := m' }, by rw [hr]; rfl, hσ, hk⟩
  refine ⟨hreturned, fun hnone => ?_⟩
  have hlimit : (While.runBlock ss m).WithinLimit :=
    While.withinLimit_runBlock hs (by rw [hi.steps]; exact Nat.zero_le _)
  rw [Machine.evaluate_whileDo hm]
  cases hr : While.runBlock ss m with
  | returned m' =>
      have hyields := (While.yields_iff_runBlock hs hi.steps).mp ⟨m', hr, rfl, rfl⟩
      exact absurd ⟨m'.store, m'.steps, hyields⟩ hnone
  | raised e m' =>
      rw [hr] at hlimit
      obtain ⟨rfl, hsteps⟩ := hlimit
      exact ⟨{ s with memory := m' }, rfl, hsteps⟩

/-- A loop of 1000 checks is within the limit, one more repetition is beyond it.  The first
assignment to `a` only takes its lock away. -/
theorem evaluate_whileDo_iff_boundary :
    ∃ p σ t, parse .whileDo "WHILE a != 0 DO IF b < a THEN a := a - 1; END END" = .ok p ∧
      While.Yields p.statements 1000 (Inputs.ofNaturals [("a", 998)]).memory.store
        (Inputs.ofNaturals [("a", 998)]).memory.locked σ ∧
      Machine.empty.evaluate .whileDo p (.ofNaturals [("a", 999)]) = .raised .stepLimit t ∧
      t.memory.steps = 1001 := by
  obtain ⟨p, hp, hruns⟩ : ∃ p,
      parse .whileDo "WHILE a != 0 DO IF b < a THEN a := a - 1; END END" = .ok p ∧
      (decide ((Machine.empty.evaluate .whileDo p (.ofNaturals [("a", 998)])).map
          (fun t => t.memory.steps) = .returned 1000) &&
        decide ((Machine.empty.evaluate .whileDo p (.ofNaturals [("a", 999)])).error? =
          some .stepLimit)) = true :=
    Except.exists_of_any (by decide +kernel)
  rw [Bool.and_eq_true, decide_eq_true_eq, decide_eq_true_eq] at hruns
  obtain ⟨hwithin, hlimit⟩ := hruns
  obtain ⟨t₁, h₁, hsteps₁⟩ := Outcome.map_eq_returned_iff.mp hwithin
  obtain ⟨hyields₁, _⟩ :=
    ((evaluate_whileDo_iff hp [("a", 998)] .empty).1 _ 1000).mp ⟨t₁, h₁, rfl, hsteps₁⟩
  obtain ⟨hreturned, hraised⟩ := evaluate_whileDo_iff hp [("a", 999)] .empty
  obtain ⟨t₂, h₂, hsteps₂⟩ := hraised <| by
    rintro ⟨σ, k, hyields⟩
    obtain ⟨t, ht, _⟩ := (hreturned σ k).mpr hyields
    rw [ht] at hlimit
    cases hlimit
  exact ⟨p, _, t₂, hp, hyields₁, h₂, hsteps₂⟩

end Program

end CounterPrograms
