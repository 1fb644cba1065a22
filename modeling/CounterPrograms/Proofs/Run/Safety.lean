import CounterPrograms.Proofs.Compile.Sound
import CounterPrograms.Proofs.Run.Locks
import CounterPrograms.Proofs.Run.Loop
import CounterPrograms.Proofs.Run.While.Limit

/-!
# Programs cannot go wrong

A program that was read or compiled is run without a surprise (`Program.evaluate_safe`): LOOP
programs return, the others return or are stopped by the limit, and GOTO programs may fail at a label
that is carried twice or not at all (`Language.Raises`).  In no store that a run passes on its way
(`Recorded.Passes`) is a negative value.
-/

namespace CounterPrograms

/-! ### Errors -/

/-- The errors that may stop the programs of a language. -/
def Language.Raises : Language → RunError → Prop
  | .loop, _ => False
  | .whileDo, e => e = .stepLimit
  | .goto, e => e = .stepLimit ∨ (∃ l, e = .duplicateLabel l) ∨ ∃ l, e = .undefinedLabel l

namespace Machine

theorem raises_of_start {is : List Instruction} (his : ∀ i ∈ is, Executable i.statement)
    {s t : Machine} {e : RunError} (h : start is s = .raised e t) : Language.goto.Raises e := by
  cases htable : Labels.table 0 is with
  | error r =>
      rw [start, htable] at h
      obtain ⟨rfl, _⟩ := Outcome.raised.inj h
      exact .inr (.inl ⟨r.label, rfl⟩)
  | ok labels =>
      rw [start, htable] at h
      rcases exists_of_run_raised h with hlimit | ⟨i, hi, u, _, hfailed⟩
      · exact .inl hlimit
      · obtain ⟨l, _, _, herror⟩ := (his i hi).of_failed hfailed
        exact .inr (.inr ⟨l, herror⟩)

/-- A proper program is stopped by no errors but those of its language. -/
theorem raises_of_evaluate {l : Language} {p : Program} (hp : p.Proper l)
    {pairs : List (String × Nat)} {s t : Machine} {e : RunError}
    (h : s.evaluate l p (.ofNaturals pairs) = .raised e t) : l.Raises e := by
  obtain ⟨hm, hi⟩ := Inputs.bindAll_memory pairs
  cases hp with
  | @loop ss hs =>
      obtain ⟨m', hm'⟩ := Loop.runBlock_returned hs (Inputs.ofNaturals pairs).memory
      rw [evaluate_loop hm, hm'] at h
      cases h
  | @whileDo ss hs =>
      -- A run that begins within the limit is stopped by nothing else.
      have hlimit := While.withinLimit_runBlock hs (m := (Inputs.ofNaturals pairs).memory)
        (by rw [hi.steps]; exact Nat.zero_le _)
      rw [evaluate_whileDo hm] at h
      cases hrun : While.runBlock ss (Inputs.ofNaturals pairs).memory with
      | returned m' =>
          rw [hrun] at h
          cases h
      | raised e' m' =>
          rw [hrun] at h hlimit
          obtain ⟨rfl, _⟩ := Outcome.raised.inj h
          exact hlimit.1
  | goto his =>
      rw [evaluate_goto hm (Executable.absent?_eq_none his)] at h
      exact raises_of_start his h

end Machine

/-! ### Stores on the way -/

/-- A store that a run passes: what the first so many of its assignments leave of the memory `m`
with which it begins. -/
def Recorded.Passes {σ : Type} (r : Recorded σ) (m : Memory) (store : Store) : Prop :=
  ∃ ws, ws <+: r.writes ∧ store = (m.assignAll ws).store

/-- Assignments that keep an invariant one by one keep it one after the other. -/
theorem Memory.KeptBy.assignAll {I : Memory → Prop} {P : String → Int → Prop} (hI : KeptBy I P)
    {m : Memory} (hm : I m) {ws : List (String × Int)} (hws : ∀ w ∈ ws, P w.1 w.2) :
    I (m.assignAll ws) := by
  induction ws generalizing m with
  | nil => exact hm
  | cons w ws ih =>
      obtain ⟨hw, hrest⟩ := List.forall_mem_cons.mp hws
      exact ih (hI.assign hm hw) hrest

namespace Machine

variable {language : Language} {p : Program} {pairs : List (String × Nat)} {s : Machine}

theorem passes_of_record (language : Language) (p : Program) (pairs : List (String × Nat))
    (s : Machine) :
    (s.record language p (.ofNaturals pairs)).Passes (Inputs.ofNaturals pairs).memory
      (s.evaluate language p (.ofNaturals pairs)).state.memory.store := by
  obtain ⟨n, hn⟩ := memory_of_evaluate language p pairs s
  exact ⟨_, List.prefix_rfl, by rw [hn]⟩

theorem nonneg_of_passes (hp : ∀ n ∈ p.literals, 0 ≤ n) {store : Store}
    (h : (s.record language p (.ofNaturals pairs)).Passes (Inputs.ofNaturals pairs).memory store)
    (x : String) : 0 ≤ store.value x := by
  obtain ⟨ws, hpassed, rfl⟩ := h
  have hbegin : (Inputs.ofNaturals pairs).memory.Nonneg :=
    (Inputs.bindAll_memory pairs).2.value_nonneg
  have hws : ∀ w ∈ ws, 0 ≤ w.2 := fun w hw => nonneg_of_record hp (hpassed.subset hw)
  exact Memory.keptBy_nonneg.assignAll hbegin hws x

end Machine

/-! ### Programs -/

namespace Program

/-- Programs that were read, or compiled from such, cannot go wrong: begun with natural numbers, a
LOOP program returns, a WHILE program returns or takes too many steps, and a GOTO program returns,
takes too many steps or fails at a label.  No store that the run passes, from the initial values to
what it leaves, has a negative value in it. -/
theorem evaluate_safe {l : Language} {p : Program} (hp : Obtained l p)
    (pairs : List (String × Nat)) (s : Machine) :
    (∀ e t, s.evaluate l p (.ofNaturals pairs) = .raised e t → l.Raises e) ∧
    (l = .loop → ∃ t, s.evaluate l p (.ofNaturals pairs) = .returned t) ∧
    (s.record l p (.ofNaturals pairs)).outcome = s.evaluate l p (.ofNaturals pairs) ∧
    (s.record l p (.ofNaturals pairs)).Passes (Inputs.ofNaturals pairs).memory
      (s.evaluate l p (.ofNaturals pairs)).state.memory.store ∧
    ∀ store, (s.record l p (.ofNaturals pairs)).Passes (Inputs.ofNaturals pairs).memory store →
      ∀ x v, store.get? x = some v → 0 ≤ v := by
  obtain ⟨hproper, hnonneg⟩ := hp.sound
  have hraises : ∀ e t, s.evaluate l p (.ofNaturals pairs) = .raised e t → l.Raises e :=
    fun _ _ => Machine.raises_of_evaluate hproper
  refine ⟨hraises, ?_, Machine.outcome_record l p _ s, Machine.passes_of_record l p pairs s, ?_⟩
  · rintro rfl
    cases hrun : s.evaluate .loop p (.ofNaturals pairs) with
    | returned t => exact ⟨t, rfl⟩
    | raised e t => exact (hraises e t hrun).elim
  · intro store hpass x v hv
    have hvalue := Machine.nonneg_of_passes hnonneg hpass x
    rwa [Store.value_of_get? hv] at hvalue

/-- A loop that counts down, compiled twice. -/
theorem evaluate_safe_compiled :
    ∃ p q r, parse .loop "LOOP n DO x := x - 1; y := n - 2; END" = .ok p ∧
      p.compile .loop .whileDo ["n", "x"] = .ok q ∧ q.compile .whileDo .goto ["n"] = .ok r ∧
      (∀ e t, Machine.empty.evaluate .goto r (.ofNaturals [("n", 3), ("x", 1)]) = .raised e t →
        Language.goto.Raises e) ∧
      ∀ x v, (Machine.empty.evaluate .goto r
        (.ofNaturals [("n", 3), ("x", 1)])).state.memory.store.get? x = some v → 0 ≤ v := by
  obtain ⟨p, hp, h⟩ : ∃ p, parse .loop "LOOP n DO x := x - 1; y := n - 2; END" = .ok p ∧
      ((p.compile .loop .whileDo ["n", "x"]).toOption.any fun q =>
        (q.compile .whileDo .goto ["n"]).toOption.any fun _ => true) = true :=
    Except.exists_of_any (by decide +kernel)
  obtain ⟨q, hq, h⟩ := Except.exists_of_any h
  obtain ⟨r, hr, _⟩ := Except.exists_of_any h
  have hsafe := evaluate_safe (.compiled (.compiled (.read hp) hq) hr) [("n", 3), ("x", 1)] .empty
  exact ⟨p, q, r, hp, hq, hr, hsafe.1, hsafe.2.2.2.2 _ hsafe.2.2.2.1⟩

end Program

end CounterPrograms
