import CounterPrograms.Proofs.Run.Invariant

/-!
# LOOP programs

Every LOOP program returns (`Loop.runBlock_returned`), and as long as no negative number is written
in it, no value becomes negative (`Loop.value_nonneg_of_runBlock`).  `Loop.entriesOfBlock` lists
what the loops of a run find in their counters: a value for each time that a loop is entered.
-/

namespace CounterPrograms

namespace Loop

/-! ### Loops that are entered -/

/-- The entries of a body that is repeated a number of times. -/
def repeatEntries (body : Memory → Outcome Memory) (entries : Memory → List Int) :
    Nat → Memory → List Int
  | 0, _ => []
  | n + 1, m =>
    entries m ++
      match body m with
      | .returned m => repeatEntries body entries n m
      | .raised .. => []

mutual

/-- The values that loops find in their counters when they are entered, while a statement is run. -/
def entriesOfStmt : Stmt → Memory → List Int
  | .loop counter body, m =>
    m.store.value counter ::
      repeatEntries (runBlock body) (entriesOfBlock body) (m.store.value counter).toNat m
  | _, _ => []
termination_by structural s => s

/-- The values that loops find in their counters when they are entered, while a block is run. -/
def entriesOfBlock : List Stmt → Memory → List Int
  | [], _ => []
  | s :: rest, m =>
    entriesOfStmt s m ++
      match runStmt s m with
      | .returned m => entriesOfBlock rest m
      | .raised .. => []
termination_by structural ss => ss

end

/-! ### Every program returns -/

theorem repeatTimes_returned {body : Memory → Outcome Memory}
    (hbody : ∀ m, ∃ m', body m = .returned m') (n : Nat) (m : Memory) :
    ∃ m', repeatTimes body n m = .returned m' := by
  induction n generalizing m with
  | zero => exact ⟨m, rfl⟩
  | succ n ih =>
      obtain ⟨m₁, h₁⟩ := hbody m
      obtain ⟨m₂, h₂⟩ := ih m₁
      exact ⟨m₂, by rw [repeatTimes, h₁, Outcome.returned_andThen, h₂]⟩

theorem runBlock_returned {ss : List Stmt} (h : Block ss) (m : Memory) :
    ∃ m', runBlock ss m = .returned m' := by
  induction h generalizing m with
  | nil => exact ⟨m, rfl⟩
  | assign he _ ih =>
      obtain ⟨n, hn⟩ := he.eval_ok m.store
      obtain ⟨m', hm'⟩ := ih (m.assign _ n)
      refine ⟨m', ?_⟩
      rw [runBlock, runStmt, Memory.runAssign_of_eval hn, Outcome.returned_andThen, hm']
  | @loop v body _ _ _ ihb ihr =>
      obtain ⟨m₁, h₁⟩ := repeatTimes_returned ihb (m.store.value v).toNat m
      obtain ⟨m', hm'⟩ := ihr m₁
      refine ⟨m', ?_⟩
      rw [runBlock, runStmt, h₁, Outcome.returned_andThen, hm']

/-! ### No value becomes negative -/

theorem invariant_of_repeatTimes {P : Memory → Prop} {body : Memory → Outcome Memory}
    (hbody : ∀ m m', P m → body m = .returned m' → P m') {n : Nat} {m m' : Memory} (hm : P m)
    (h : repeatTimes body n m = .returned m') : P m' := by
  induction n generalizing m with
  | zero =>
      obtain rfl := Outcome.returned.inj h
      exact hm
  | succ n ih =>
      obtain ⟨m₁, h₁, h₂⟩ := Outcome.andThen_eq_returned_iff.mp h
      exact ih (hbody m m₁ hm h₁) h₂

theorem value_nonneg_of_runBlock {ss : List Stmt} (hs : ∀ n ∈ Stmt.literalsOfBlock ss, 0 ≤ n)
    {m m' : Memory} (hm : ∀ x, 0 ≤ m.store.value x) (h : runBlock ss m = .returned m') :
    ∀ x, 0 ≤ m'.store.value x := by
  have hassign : ∀ x e, .assign x e ∈ Stmt.partsOfBlock ss → ∀ m,
      Recorded.Keeps Memory.Nonneg (fun _ n => 0 ≤ n) m (m.recordAssign x e) :=
    fun x e hmem => Recorded.keeps_recordAssign Memory.keptBy_nonneg fun m hm n hn =>
      Expr.eval_nonneg hm (fun k hk => hs k (Stmt.literals_subset_of_mem hmem hk)) hn
  have hkeeps := compose_recordBlock (Recorded.compositional_keeps Memory.keptBy_nonneg) hassign m
  rw [Recorded.Keeps, outcome_recordBlock, h] at hkeeps
  exact (hkeeps hm).2

end Loop

end CounterPrograms
