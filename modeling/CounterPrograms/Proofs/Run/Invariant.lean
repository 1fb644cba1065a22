import CounterPrograms.Proofs.Run.Composition

/-!
# What assignments keep, runs keep

If every assignment of a program, executed in a memory with the property `I`, assigns a value with
the property `P`, and such assignments keep `I` (`Memory.KeptBy`), then a run begun in a memory with
`I` assigns nothing else and ends in a memory with `I` (`Recorded.Keeps`, `Machine.keeps_record`).
-/

namespace CounterPrograms

namespace Memory

/-- Assignments with the property `P`, and the counting of steps, keep the invariant `I`. -/
structure KeptBy (I : Memory → Prop) (P : String → Int → Prop) : Prop where
  assign : ∀ {m x n}, I m → P x n → I (m.assign x n)
  count : ∀ {m}, I m → I m.count

/-- No value in the memory is negative. -/
def Nonneg (m : Memory) : Prop :=
  ∀ x, 0 ≤ m.store.value x

theorem keptBy_nonneg : KeptBy Nonneg fun _ n => 0 ≤ n :=
  ⟨fun hm hn => value_assign_nonneg hm hn, fun hm => hm⟩

end Memory

namespace Recorded

variable {I : Memory → Prop} {P : String → Int → Prop}

/-- Begun in a memory with `I`, the run assigns values with `P` and ends in a memory with `I`. -/
def Keeps (I : Memory → Prop) (P : String → Int → Prop) (m : Memory) (r : Recorded Memory) : Prop :=
  I m → (∀ w ∈ r.writes, P w.1 w.2) ∧ I r.outcome.state

theorem Keeps.andThen {m : Memory} {r : Recorded Memory} {next : Memory → Recorded Memory}
    (h : Keeps I P m r) (hnext : ∀ m', Keeps I P m' (next m')) : Keeps I P m (r.andThen next) := by
  intro hm
  obtain ⟨hwrites, hstate⟩ := h hm
  unfold Recorded.andThen
  cases ho : r.outcome with
  | returned m' =>
      rw [ho] at hstate
      obtain ⟨hwrites', hstate'⟩ := hnext m' hstate
      exact ⟨List.forall_mem_append.mpr ⟨hwrites, hwrites'⟩, hstate'⟩
  | raised e m' => exact ⟨hwrites, hstate⟩

theorem compositional_keeps (hI : Memory.KeptBy I P) : Compositional (Keeps I P) where
  returned _ hm := ⟨nofun, hm⟩
  raised _ _ hm := ⟨nofun, hm⟩
  count _ hm := ⟨nofun, hI.count hm⟩
  andThen := Keeps.andThen

theorem keeps_recordAssign (hI : Memory.KeptBy I P) {x : String} {e : Expr}
    (h : ∀ m, I m → ∀ n, e.eval m.store = .ok n → P x n) (m : Memory) :
    Keeps I P m (m.recordAssign x e) := by
  intro hm
  unfold Memory.recordAssign Memory.written Memory.runAssign
  cases he : e.eval m.store with
  | ok n =>
      have hn : P x n := h m hm n he
      exact ⟨List.forall_mem_singleton.mpr hn, hI.assign hm hn⟩
  | error err => exact ⟨nofun, hm⟩

end Recorded

namespace Machine

variable {I : Memory → Prop} {P : String → Int → Prop}

/-- What the assignments of a program keep, its evaluations with natural numbers keep. -/
theorem keeps_record (hI : Memory.KeptBy I P) {p : Program}
    (hp : ∀ x e, .assign x e ∈ p.parts → ∀ m, I m → ∀ n, e.eval m.store = .ok n → P x n)
    (language : Language) (pairs : List (String × Nat)) (s : Machine) :
    Recorded.Keeps I P (Inputs.ofNaturals pairs).memory
      ((s.record language p (.ofNaturals pairs)).map memory) :=
  compose_record (Recorded.compositional_keeps hI)
    (fun x e h => Recorded.keeps_recordAssign hI (hp x e h)) language pairs s

theorem mem_names_of_record {language : Language} {p : Program} {pairs : List (String × Nat)}
    {s : Machine} {w : String × Int}
    (hw : w ∈ (s.record language p (.ofNaturals pairs)).writes) : w.1 ∈ p.names := by
  -- Nothing is asked of the memory: only the names that are assigned to matter.
  have hI : Memory.KeptBy (fun _ => True) fun x _ => x ∈ p.names := ⟨fun _ _ => trivial, id⟩
  have hassign : ∀ x e, .assign x e ∈ p.parts → x ∈ p.names :=
    fun x e h => Program.names_subset_of_mem h List.mem_cons_self
  have hkeeps := keeps_record hI (fun x e h _ _ _ _ => hassign x e h) language pairs s
  exact (hkeeps trivial).1 w hw

theorem nonneg_of_record {language : Language} {p : Program} (hp : ∀ n ∈ p.literals, 0 ≤ n)
    {pairs : List (String × Nat)} {s : Machine} {w : String × Int}
    (hw : w ∈ (s.record language p (.ofNaturals pairs)).writes) : 0 ≤ w.2 := by
  have hassign : ∀ x e, .assign x e ∈ p.parts → ∀ m : Memory, m.Nonneg →
      ∀ n, e.eval m.store = .ok n → 0 ≤ n :=
    fun x e h m hm n hn =>
      Expr.eval_nonneg hm (fun k hk => hp k (Program.literals_subset_of_mem h hk)) hn
  have hkeeps := keeps_record Memory.keptBy_nonneg hassign language pairs s
  exact (hkeeps (Inputs.bindAll_memory pairs).2.value_nonneg).1 w hw

end Machine

end CounterPrograms
