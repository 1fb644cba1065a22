import CounterPrograms.Proofs.Run.Composition
import CounterPrograms.Program.Parser

/-!
# What a run leaves is what its assignments leave

A name with an initial value is locked, and an assignment to a locked name only takes the lock
away.  Whatever a run does, whether it returns or an error stops it, the memory it leaves is that of
its assignments executed one after the other (`Recorded.Replays`), so it can be read off them:
among the assignments to a name the first one is dropped if the name was locked, and the last one
of the others counts (`Memory.get?_assignAll`).  `Machine.leftBy_record` puts this together for the
interpreters of all three languages.
-/

namespace CounterPrograms

/-! ### Assignments one after the other -/

/-- The values that are assigned to `x`, in order. -/
def valuesOf (x : String) (ws : List (String × Int)) : List Int :=
  (ws.filter fun w => w.1 = x).map Prod.snd

theorem valuesOf_cons_self (x : String) (v : Int) (ws : List (String × Int)) :
    valuesOf x ((x, v) :: ws) = v :: valuesOf x ws := by
  simp [valuesOf]

theorem valuesOf_cons_of_ne {x y : String} (h : y ≠ x) (v : Int) (ws : List (String × Int)) :
    valuesOf x ((y, v) :: ws) = valuesOf x ws := by
  simp [valuesOf, h]

theorem valuesOf_eq_nil {x : String} {ws : List (String × Int)} (h : ∀ w ∈ ws, w.1 ≠ x) :
    valuesOf x ws = [] := by
  simpa [valuesOf] using h

namespace Memory

/-- Executes assignments one after the other. -/
def assignAll (m : Memory) (ws : List (String × Int)) : Memory :=
  ws.foldl (fun m w => m.assign w.1 w.2) m

theorem assignAll_append (m : Memory) (ws vs : List (String × Int)) :
    m.assignAll (ws ++ vs) = (m.assignAll ws).assignAll vs :=
  List.foldl_append

theorem assignAll_with_steps (m : Memory) (ws : List (String × Int)) (n : Nat) :
    ({ m with steps := n }).assignAll ws = { m.assignAll ws with steps := n } := by
  induction ws generalizing m with
  | nil => rfl
  | cons w ws ih =>
      show (({ m with steps := n }).assign w.1 w.2).assignAll ws = _
      rw [assign_with_steps, ih]
      rfl

/-- The value of a name after assignments: the last one assigned to it, the first one apart if the
name was locked, and the value from before if there is none. -/
theorem get?_assignAll (m : Memory) (x : String) (ws : List (String × Int)) :
    (m.assignAll ws).store.get? x =
      (if x ∈ m.locked then (valuesOf x ws).tail else valuesOf x ws).getLast?.or
        (m.store.get? x) := by
  induction ws generalizing m with
  | nil => split <;> rfl
  | cons w ws ih =>
      obtain ⟨y, v⟩ := w
      show ((m.assign y v).assignAll ws).store.get? x = _
      rw [ih]
      by_cases hy : y = x
      · subst hy
        have hl : y ∉ (m.assign y v).locked := fun h => (mem_locked_assign.mp h).2 rfl
        rw [if_neg hl, valuesOf_cons_self]
        by_cases hm : y ∈ m.locked
        · rw [if_pos hm, assign_of_mem hm, List.tail_cons]
        · rw [if_neg hm, get?_assign_self hm, List.getLast?_cons]
          cases (valuesOf y ws).getLast? <;> rfl
      · have hl : x ∈ (m.assign y v).locked ↔ x ∈ m.locked := by
          rw [mem_locked_assign]
          exact ⟨fun h => h.1, fun h => ⟨h, fun he => hy he.symm⟩⟩
        rw [valuesOf_cons_of_ne hy, get?_assign_of_ne fun he => hy he.symm]
        simp only [hl]

/-- The names that assignments leave locked. -/
theorem mem_locked_assignAll {m : Memory} {x : String} {ws : List (String × Int)} :
    x ∈ (m.assignAll ws).locked ↔ x ∈ m.locked ∧ valuesOf x ws = [] := by
  induction ws generalizing m with
  | nil => exact ⟨fun h => ⟨h, rfl⟩, fun h => h.1⟩
  | cons w ws ih =>
      obtain ⟨y, v⟩ := w
      show x ∈ ((m.assign y v).assignAll ws).locked ↔ _
      rw [ih, mem_locked_assign]
      by_cases hy : y = x
      · subst hy
        rw [valuesOf_cons_self]
        exact ⟨fun h => absurd rfl h.1.2, fun h => absurd h.2 (List.cons_ne_nil _ _)⟩
      · rw [valuesOf_cons_of_ne hy]
        exact ⟨fun h => ⟨h.1.1, h.2⟩, fun h => ⟨⟨h.1, fun he => hy he.symm⟩, h.2⟩⟩

end Memory

/-! ### Runs change the memory by assignments only -/

namespace Recorded

/-- What the run leaves of the memory `m` is what its assignments leave, the count of steps
apart. -/
def Replays (m : Memory) (r : Recorded Memory) : Prop :=
  ∃ n, r.outcome.state = { m.assignAll r.writes with steps := n }

variable {m : Memory} {r : Recorded Memory}

theorem replays_silent {o : Outcome Memory} {n : Nat} (h : o.state = { m with steps := n }) :
    (silent o).Replays m :=
  ⟨n, h⟩

theorem Replays.after {ws : List (String × Int)} {n : Nat}
    (h : r.Replays { m.assignAll ws with steps := n }) : (r.after ws).Replays m := by
  obtain ⟨k, hk⟩ := h
  refine ⟨k, ?_⟩
  rw [Memory.assignAll_with_steps] at hk
  show r.outcome.state = { m.assignAll (ws ++ r.writes) with steps := k }
  rw [hk, Memory.assignAll_append]

theorem Replays.andThen {next : Memory → Recorded Memory} (h : r.Replays m)
    (hn : ∀ m', (next m').Replays m') : (r.andThen next).Replays m := by
  unfold Recorded.andThen
  obtain ⟨n, hn'⟩ := h
  cases ho : r.outcome with
  | returned m' =>
      rw [ho] at hn'
      obtain rfl : m' = { m.assignAll r.writes with steps := n } := hn'
      exact (hn _).after
  | raised e m' => exact ⟨n, hn'⟩

theorem replays_recordAssign (m : Memory) (x : String) (e : Expr) :
    (m.recordAssign x e).Replays m := by
  refine ⟨m.steps, ?_⟩
  unfold Memory.recordAssign Memory.runAssign Memory.written
  cases e.eval m.store with
  | ok n =>
      show m.assign x n = { m.assign x n with steps := m.steps }
      rw [← Memory.assign_with_steps]
  | error e => rfl

theorem compositional_replays : Compositional fun m r => r.Replays m where
  returned m := replays_silent (n := m.steps) rfl
  raised _ m := replays_silent (n := m.steps) rfl
  count m := replays_silent (n := m.steps + 1) rfl
  andThen := Replays.andThen

end Recorded

/-- Whatever the program and its language, an evaluation leaves what its assignments leave. -/
theorem Machine.memory_of_evaluate (language : Language) (p : Program)
    (pairs : List (String × Nat)) (s : Machine) :
    ∃ n, (s.evaluate language p (.ofNaturals pairs)).state.memory =
      { (Inputs.ofNaturals pairs).memory.assignAll
          (s.record language p (.ofNaturals pairs)).writes with steps := n } := by
  have hassign : ∀ x e, .assign x e ∈ p.parts → ∀ m : Memory, (m.recordAssign x e).Replays m :=
    fun x e _ m => Recorded.replays_recordAssign m x e
  obtain ⟨n, hn⟩ := compose_record Recorded.compositional_replays hassign language pairs s
  refine ⟨n, ?_⟩
  rw [← outcome_record, ← Outcome.state_map memory]
  exact hn

/-! ### What evaluations leave -/

namespace Memory

/-- The memory is what assignments leave of initial values.  Among those to a name with an initial
value the first one is dropped. -/
structure LeftBy (inputs : Inputs) (ws : List (String × Int)) (m : Memory) : Prop where
  bound : ∀ x (v : Nat), (x, .natural v) ∈ inputs →
    m.store.get? x = some ((valuesOf x ws).tail.getLast?.getD v)
  unbound : ∀ x, x ∉ inputs.names → m.store.get? x = (valuesOf x ws).getLast?
  locked : ∀ x, x ∈ m.locked ↔ x ∈ inputs.names ∧ valuesOf x ws = []

theorem leftBy_assignAll (pairs : List (String × Nat)) (ws : List (String × Int)) (n : Nat) :
    LeftBy (.ofNaturals pairs) ws
      { (Inputs.ofNaturals pairs).memory.assignAll ws with steps := n } := by
  obtain ⟨hm, hi⟩ := Inputs.bindAll_memory pairs
  generalize (Inputs.ofNaturals pairs).memory = m at hm hi ⊢
  refine ⟨?_, ?_, ?_⟩
  · intro x v hx
    have hl : x ∈ m.locked := (hi.mem_locked x).mpr (List.mem_map_of_mem hx)
    show (m.assignAll ws).store.get? x = _
    rw [get?_assignAll, if_pos hl, get?_bindAll_of_mem hm (Bindings.nodup_ofPairs _) hx,
      Option.or_some]
  · intro x hx
    have hl : x ∉ m.locked := fun h => hx ((hi.mem_locked x).mp h)
    show (m.assignAll ws).store.get? x = _
    rw [get?_assignAll, if_neg hl, hi.get?_eq_none x hx, Option.or_none]
  · intro x
    show x ∈ (m.assignAll ws).locked ↔ _
    rw [mem_locked_assignAll, hi.mem_locked]

end Memory

namespace Machine

/-- Begun with natural numbers, an evaluation leaves what its assignments leave, whatever the
program, its language and the machine it is run on, and also if an error stops it. -/
theorem leftBy_record (language : Language) (p : Program) (pairs : List (String × Nat))
    (s : Machine) :
    (s.record language p (.ofNaturals pairs)).outcome =
        s.evaluate language p (.ofNaturals pairs) ∧
      (s.evaluate language p (.ofNaturals pairs)).state.memory.LeftBy (.ofNaturals pairs)
        (s.record language p (.ofNaturals pairs)).writes := by
  obtain ⟨n, hn⟩ := memory_of_evaluate language p pairs s
  refine ⟨outcome_record language p (.ofNaturals pairs) s, ?_⟩
  rw [hn]
  exact Memory.leftBy_assignAll pairs _ n

/-- The assignments to `x` before and after its lock has been taken away, in a run that misses a
label; `z` keeps its lock. -/
theorem leftBy_record_missing_label :
    ∃ p, Program.parse .goto "x := x + 1; x := x + 2; y := x + 0; GOTO a;" = .ok p ∧
      (empty.evaluate .goto p (.ofNaturals [("x", 5), ("z", 3)])).error? =
        some (.undefinedLabel "a") ∧
      (empty.evaluate .goto p (.ofNaturals [("x", 5), ("z", 3)])).state.memory.LeftBy
        (.ofNaturals [("x", 5), ("z", 3)]) [("x", 6), ("x", 7), ("y", 7)] := by
  obtain ⟨p, hp, hrun⟩ : ∃ p,
      Program.parse .goto "x := x + 1; x := x + 2; y := x + 0; GOTO a;" = .ok p ∧
      (decide ((empty.evaluate .goto p (.ofNaturals [("x", 5), ("z", 3)])).error? =
          some (.undefinedLabel "a")) &&
        decide ((empty.record .goto p (.ofNaturals [("x", 5), ("z", 3)])).writes =
          [("x", 6), ("x", 7), ("y", 7)])) = true :=
    Except.exists_of_any (by decide +kernel)
  simp only [Bool.and_eq_true, decide_eq_true_eq] at hrun
  obtain ⟨herror, hwrites⟩ := hrun
  have hleft := (leftBy_record .goto p [("x", 5), ("z", 3)] empty).2
  rw [hwrites] at hleft
  exact ⟨p, hp, herror, hleft⟩

end Machine

end CounterPrograms
