import CounterPrograms.Proofs.Run.Memory

/-!
# WHILE programs without a limit

`While.Exec ss k m m'` is the meaning of a block apart from any limit: begun with the memory `m`, it
ends with the memory `m'` after `k` checks of loop conditions.  It is deterministic, and a variable
that does not occur in the block keeps its value and its lock.

The interpreter stops these runs at `stepLimit` checks: it returns what a run within the limit ends
with (`While.runBlock_of_exec`), raises `stepLimit` for a run beyond it
(`While.runBlock_of_exec_of_lt`), and returns nothing else (`While.exec_of_runBlock`).
-/

namespace CounterPrograms

namespace While

/-- Runs of blocks, which count the checks of loop conditions. -/
inductive Exec : List Stmt → Nat → Memory → Memory → Prop
  | nil (m : Memory) : Exec [] 0 m m
  | assign {x : String} {e : Expr} {n : Int} {rest : List Stmt} {k : Nat} {m m' : Memory} :
      e.eval m.store = .ok n → Exec rest k (m.assign x n) m' →
      Exec (.assign x e :: rest) k m m'
  | whileTrue {c : Condition} {body rest : List Stmt} {k₁ k₂ : Nat} {m m₁ m₂ : Memory} :
      c.eval m.store = .ok true → Exec body k₁ m.count m₁ →
      Exec (.whileDo c body :: rest) k₂ m₁ m₂ →
      Exec (.whileDo c body :: rest) (k₁ + k₂ + 1) m m₂
  | whileFalse {c : Condition} {body rest : List Stmt} {k : Nat} {m m' : Memory} :
      c.eval m.store = .ok false → Exec rest k m.count m' →
      Exec (.whileDo c body :: rest) (k + 1) m m'
  | ifTrue {c : Condition} {t rest : List Stmt} {e : Option (List Stmt)} {k₁ k₂ : Nat}
      {m m₁ m₂ : Memory} :
      c.eval m.store = .ok true → Exec t k₁ m m₁ → Exec rest k₂ m₁ m₂ →
      Exec (.ifThen c t e :: rest) (k₁ + k₂) m m₂
  | ifFalse {c : Condition} {t rest : List Stmt} {e : Option (List Stmt)} {k₁ k₂ : Nat}
      {m m₁ m₂ : Memory} :
      c.eval m.store = .ok false → Exec (e.getD []) k₁ m m₁ → Exec rest k₂ m₁ m₂ →
      Exec (.ifThen c t e :: rest) (k₁ + k₂) m m₂

namespace Exec

variable {ss ts : List Stmt} {k₁ k₂ : Nat} {m m₁ m₂ : Memory}

theorem steps_eq {k : Nat} {m' : Memory} (h : Exec ss k m m') : m'.steps = m.steps + k := by
  induction h with
  | nil m => rfl
  | assign _ _ ih => rw [ih, Memory.steps_assign]
  | whileTrue _ _ _ ih₁ ih₂ =>
      rw [ih₂, ih₁, Memory.steps_count]
      omega
  | whileFalse _ _ ih =>
      rw [ih, Memory.steps_count]
      omega
  | ifTrue _ _ _ ih₁ ih₂ | ifFalse _ _ _ ih₁ ih₂ => rw [ih₂, ih₁, Nat.add_assoc]

theorem append (h₁ : Exec ss k₁ m m₁) (h₂ : Exec ts k₂ m₁ m₂) :
    Exec (ss ++ ts) (k₁ + k₂) m m₂ := by
  induction h₁ with
  | nil m => rwa [List.nil_append, Nat.zero_add]
  | assign he _ ih => exact .assign he (ih h₂)
  | @whileTrue _ _ _ a b _ _ _ hc hbody _ _ ih =>
      have e : a + b + 1 + k₂ = a + (b + k₂) + 1 := by omega
      rw [e]
      exact .whileTrue hc hbody (ih h₂)
  | @whileFalse _ _ _ a _ _ hc _ ih =>
      have e : a + 1 + k₂ = a + k₂ + 1 := by omega
      rw [e]
      exact .whileFalse hc (ih h₂)
  | ifTrue hc ht _ _ ih =>
      rw [Nat.add_assoc]
      exact .ifTrue hc ht (ih h₂)
  | ifFalse hc he _ _ ih =>
      rw [Nat.add_assoc]
      exact .ifFalse hc he (ih h₂)

theorem deterministic (h₁ : Exec ss k₁ m m₁) (h₂ : Exec ss k₂ m m₂) : k₁ = k₂ ∧ m₁ = m₂ := by
  induction h₁ generalizing k₂ m₂ with
  | nil m =>
      cases h₂
      exact ⟨rfl, rfl⟩
  | assign he _ ih =>
      cases h₂ with
      | assign he' h =>
          rw [he] at he'
          obtain rfl := Except.ok.inj he'
          exact ih h
  | whileTrue hc _ _ ih₁ ih₂ =>
      cases h₂ with
      | whileTrue _ g₁ g₂ =>
          obtain ⟨rfl, rfl⟩ := ih₁ g₁
          obtain ⟨rfl, rfl⟩ := ih₂ g₂
          exact ⟨rfl, rfl⟩
      | whileFalse hc' _ =>
          rw [hc] at hc'
          cases hc'
  | whileFalse hc _ ih =>
      cases h₂ with
      | whileTrue hc' _ _ =>
          rw [hc] at hc'
          cases hc'
      | whileFalse _ g =>
          obtain ⟨rfl, rfl⟩ := ih g
          exact ⟨rfl, rfl⟩
  | ifTrue hc _ _ ih₁ ih₂ =>
      cases h₂ with
      | ifTrue _ g₁ g₂ =>
          obtain ⟨rfl, rfl⟩ := ih₁ g₁
          obtain ⟨rfl, rfl⟩ := ih₂ g₂
          exact ⟨rfl, rfl⟩
      | ifFalse hc' _ _ =>
          rw [hc] at hc'
          cases hc'
  | ifFalse hc _ _ ih₁ ih₂ =>
      cases h₂ with
      | ifTrue hc' _ _ =>
          rw [hc] at hc'
          cases hc'
      | ifFalse _ g₁ g₂ =>
          obtain ⟨rfl, rfl⟩ := ih₁ g₁
          obtain ⟨rfl, rfl⟩ := ih₂ g₂
          exact ⟨rfl, rfl⟩

theorem get?_eq {k : Nat} {m' : Memory} (h : Exec ss k m m') {x : String}
    (hx : x ∉ Stmt.namesOfBlock ss) : m'.store.get? x = m.store.get? x := by
  induction h with
  | nil m => rfl
  | assign _ _ ih =>
      simp only [Stmt.namesOfBlock, Stmt.names, List.mem_append, List.mem_cons, not_or] at hx
      rw [ih hx.2, Memory.get?_assign_of_ne hx.1.1]
  | whileTrue _ _ _ ih₁ ih₂ =>
      rw [ih₂ hx]
      simp only [Stmt.namesOfBlock, Stmt.names, List.mem_append, not_or] at hx
      rw [ih₁ hx.1.2, Memory.store_count]
  | whileFalse _ _ ih =>
      simp only [Stmt.namesOfBlock, Stmt.names, List.mem_append, not_or] at hx
      rw [ih hx.2, Memory.store_count]
  | ifTrue _ _ _ ih₁ ih₂ =>
      simp only [Stmt.namesOfBlock, Stmt.mem_names_ifThen_iff, List.mem_append, not_or] at hx
      rw [ih₂ hx.2, ih₁ hx.1.2.1]
  | ifFalse _ _ _ ih₁ ih₂ =>
      simp only [Stmt.namesOfBlock, Stmt.mem_names_ifThen_iff, List.mem_append, not_or] at hx
      rw [ih₂ hx.2, ih₁ hx.1.2.2]

end Exec

/-! ### The interpreter -/

theorem exec_of_repeatWhile {c : Condition} {body rest : List Stmt}
    (hbody : ∀ m m', runBlock body m = .returned m' → ∃ k, Exec body k m m') {checks : Nat}
    {m m₁ m' : Memory} (hc : stepLimit ≤ m.steps + checks)
    (h : repeatWhile c (runBlock body) checks m = .returned m₁)
    (hrest : ∃ k, Exec rest k m₁ m') : ∃ k, Exec (.whileDo c body :: rest) k m m' := by
  induction checks generalizing m with
  | zero =>
      obtain ⟨hlt, _⟩ := Memory.tick_eq_returned_iff.mp h
      omega
  | succ checks ih =>
      obtain ⟨_, ht, h⟩ := Outcome.andThen_eq_returned_iff.mp h
      obtain ⟨_, rfl⟩ := Memory.tick_eq_returned_iff.mp ht
      obtain ⟨b, hb, h⟩ := Memory.test_eq_returned_iff.mp h
      rw [Memory.store_count] at hb
      cases b with
      | false =>
          obtain rfl := Outcome.returned.inj h
          obtain ⟨k, hk⟩ := hrest
          exact ⟨k + 1, .whileFalse hb hk⟩
      | true =>
          obtain ⟨m₂, h₁, h₂⟩ := Outcome.andThen_eq_returned_iff.mp h
          obtain ⟨k₁, hk₁⟩ := hbody _ _ h₁
          have hsteps := hk₁.steps_eq
          rw [Memory.steps_count] at hsteps
          obtain ⟨k₂, hk₂⟩ := ih (by omega) h₂
          exact ⟨k₁ + k₂ + 1, .whileTrue hb hk₁ hk₂⟩

theorem exec_of_runBlock {ss : List Stmt} {m m' : Memory} (h : runBlock ss m = .returned m') :
    ∃ k, Exec ss k m m' := by
  induction ss using Stmt.blockInduction generalizing m m' with
  | nil =>
      obtain rfl := Outcome.returned.inj h
      exact ⟨0, .nil m⟩
  | assign x e rest ih =>
      obtain ⟨_, h₁, h₂⟩ := Outcome.andThen_eq_returned_iff.mp h
      obtain ⟨n, hn, rfl⟩ := Memory.runAssign_eq_returned_iff.mp h₁
      obtain ⟨k, hk⟩ := ih h₂
      exact ⟨k, .assign hn hk⟩
  | whileDo c body rest ihb ihr =>
      obtain ⟨_, h₁, h₂⟩ := Outcome.andThen_eq_returned_iff.mp h
      exact exec_of_repeatWhile (fun _ _ hb => ihb hb) (by omega) h₁ (ihr h₂)
  | ifThen c t rest iht ihr =>
      obtain ⟨m₁, h₁, h₂⟩ := Outcome.andThen_eq_returned_iff.mp h
      obtain ⟨b, hb, h₁⟩ := Memory.test_eq_returned_iff.mp h₁
      obtain ⟨k₂, hk₂⟩ := ihr h₂
      cases b with
      | true =>
          obtain ⟨k₁, hk₁⟩ := iht h₁
          exact ⟨k₁ + k₂, .ifTrue hb hk₁ hk₂⟩
      | false =>
          obtain rfl := Outcome.returned.inj h₁
          exact ⟨0 + k₂, .ifFalse hb (.nil m) hk₂⟩
  | ifElse c t e rest iht ihe ihr =>
      obtain ⟨m₁, h₁, h₂⟩ := Outcome.andThen_eq_returned_iff.mp h
      obtain ⟨b, hb, h₁⟩ := Memory.test_eq_returned_iff.mp h₁
      obtain ⟨k₂, hk₂⟩ := ihr h₂
      cases b with
      | true =>
          obtain ⟨k₁, hk₁⟩ := iht h₁
          exact ⟨k₁ + k₂, .ifTrue hb hk₁ hk₂⟩
      | false =>
          obtain ⟨k₁, hk₁⟩ := ihe h₁
          exact ⟨k₁ + k₂, .ifFalse hb hk₁ hk₂⟩
  | loop | goto | ifGoto | halt | foreign => cases h

theorem steps_le_of_runBlock {ss : List Stmt} {m m' : Memory}
    (h : runBlock ss m = .returned m') : m.steps ≤ m'.steps := by
  obtain ⟨k, hk⟩ := exec_of_runBlock h
  rw [hk.steps_eq]
  exact Nat.le_add_right m.steps k

theorem repeatWhile_of_not_lt {c : Condition} {body : Memory → Outcome Memory} {m : Memory}
    (h : ¬ m.steps < stepLimit) (checks : Nat) :
    repeatWhile c body checks m = .raised .stepLimit m.count := by
  cases checks with
  | zero => exact Memory.tick_of_not_lt h
  | succ n => rw [repeatWhile, Memory.tick_of_not_lt h, Outcome.raised_andThen]

/-- Checks that cannot be reached make no difference. -/
theorem repeatWhile_congr {c : Condition} {body : Memory → Outcome Memory}
    (hbody : ∀ m m', body m = .returned m' → m.steps ≤ m'.steps) {a b : Nat} {m : Memory}
    (ha : stepLimit ≤ m.steps + a) (hb : stepLimit ≤ m.steps + b) :
    repeatWhile c body a m = repeatWhile c body b m := by
  induction a generalizing b m with
  | zero => rw [repeatWhile_of_not_lt (by omega), repeatWhile_of_not_lt (by omega)]
  | succ a ih =>
      by_cases hlt : m.steps < stepLimit
      · obtain ⟨b, rfl⟩ : ∃ b', b = b' + 1 := ⟨b - 1, by omega⟩
        rw [repeatWhile, repeatWhile, Memory.tick_of_lt hlt]
        have hnext : (body m.count).andThen (repeatWhile c body a) =
            (body m.count).andThen (repeatWhile c body b) := by
          cases hm : body m.count with
          | raised e m' => rfl
          | returned m' =>
              have hle := hbody _ _ hm
              rw [Memory.steps_count] at hle
              exact ih (by omega) (by omega)
        simp only [Outcome.returned_andThen, hnext]
      · rw [repeatWhile_of_not_lt hlt, repeatWhile_of_not_lt hlt]

/-- The loop equation. -/
theorem runBlock_whileDo (c : Condition) (body rest : List Stmt) (m : Memory) :
    runBlock (.whileDo c body :: rest) m =
      m.tick.andThen fun m => m.test c fun holds =>
        if holds then (runBlock body m).andThen (runBlock (.whileDo c body :: rest))
        else runBlock rest m := by
  rw [runBlock, runStmt]
  by_cases hlt : m.steps < stepLimit
  · obtain ⟨d, hd⟩ : ∃ d, stepLimit - m.steps = d + 1 := ⟨stepLimit - m.steps - 1, by omega⟩
    rw [hd, repeatWhile, Memory.tick_of_lt hlt, Outcome.returned_andThen, Outcome.returned_andThen]
    cases hc : c.eval m.count.store with
    | error e =>
        rw [Memory.test, Memory.test, hc]
        rfl
    | ok b =>
        rw [Memory.test_of_eval hc, Memory.test_of_eval hc]
        cases b with
        | false => rfl
        | true =>
            simp only [if_true]
            cases hm : runBlock body m.count with
            | raised e m' => rfl
            | returned m' =>
                have hle := steps_le_of_runBlock hm
                rw [Memory.steps_count] at hle
                have hchecks : repeatWhile c (runBlock body) d m' =
                    repeatWhile c (runBlock body) (stepLimit - m'.steps) m' :=
                  repeatWhile_congr (fun _ _ h => steps_le_of_runBlock h) (by omega) (by omega)
                rw [Outcome.returned_andThen, Outcome.returned_andThen, hchecks, runBlock, runStmt]
  · rw [repeatWhile_of_not_lt hlt, Memory.tick_of_not_lt hlt]
    rfl

theorem runBlock_ifThen (c : Condition) (t : List Stmt) (e : Option (List Stmt))
    (rest : List Stmt) (m : Memory) :
    runBlock (.ifThen c t e :: rest) m =
      m.test c fun holds =>
        (runBlock (if holds then t else e.getD []) m).andThen (runBlock rest) := by
  cases e <;> rw [runBlock, runStmt] <;> cases hc : c.eval m.store
  · rw [Memory.test, Memory.test, hc]
    rfl
  · rw [Memory.test_of_eval hc, Memory.test_of_eval hc]
    split <;> rfl
  · rw [Memory.test, Memory.test, hc]
    rfl
  · rw [Memory.test_of_eval hc, Memory.test_of_eval hc]
    split <;> rfl

/-- Within the limit the interpreter returns what a run ends with. -/
theorem runBlock_of_exec {ss : List Stmt} {k : Nat} {m m' : Memory} (h : Exec ss k m m')
    (hk : m.steps + k ≤ stepLimit) : runBlock ss m = .returned m' := by
  induction h with
  | nil m => rfl
  | assign he _ ih =>
      rw [runBlock, runStmt, Memory.runAssign_of_eval he, Outcome.returned_andThen]
      exact ih (by rwa [Memory.steps_assign])
  | @whileTrue c _ _ k₁ k₂ m m₁ _ hc hbody _ ih₁ ih₂ =>
      have hsteps : m₁.steps = m.steps + 1 + k₁ := hbody.steps_eq
      rw [runBlock_whileDo, Memory.tick_of_lt (by omega), Outcome.returned_andThen,
        Memory.test_of_eval (m := m.count) hc, if_pos rfl,
        ih₁ (by rw [Memory.steps_count]; omega), Outcome.returned_andThen]
      exact ih₂ (by omega)
  | @whileFalse c _ _ k m _ hc _ ih =>
      rw [runBlock_whileDo, Memory.tick_of_lt (by omega), Outcome.returned_andThen,
        Memory.test_of_eval (m := m.count) hc, if_neg Bool.false_ne_true]
      exact ih (by rw [Memory.steps_count]; omega)
  | ifTrue hc ht _ ih₁ ih₂ =>
      have hsteps := ht.steps_eq
      rw [runBlock_ifThen, Memory.test_of_eval hc, if_pos rfl, ih₁ (by omega),
        Outcome.returned_andThen]
      exact ih₂ (by omega)
  | ifFalse hc he _ ih₁ ih₂ =>
      have hsteps := he.steps_eq
      rw [runBlock_ifThen, Memory.test_of_eval hc, if_neg Bool.false_ne_true, ih₁ (by omega),
        Outcome.returned_andThen]
      exact ih₂ (by omega)

/-- A run in two parts that goes beyond the limit goes beyond it in the first part, or within the
limit there and beyond it in the second part. -/
theorem andThen_of_exec_of_lt {ss : List Stmt} {next : Memory → Outcome Memory} {k₁ k₂ : Nat}
    {m m₁ : Memory} (h : Exec ss k₁ m m₁) (hk : stepLimit < m.steps + (k₁ + k₂))
    (hfirst : stepLimit < m.steps + k₁ →
      ∃ m', runBlock ss m = .raised .stepLimit m' ∧ m'.steps = stepLimit + 1)
    (hnext : m₁.steps ≤ stepLimit → stepLimit < m₁.steps + k₂ →
      ∃ m', next m₁ = .raised .stepLimit m' ∧ m'.steps = stepLimit + 1) :
    ∃ m', (runBlock ss m).andThen next = .raised .stepLimit m' ∧ m'.steps = stepLimit + 1 := by
  by_cases hle : m.steps + k₁ ≤ stepLimit
  · have hsteps := h.steps_eq
    rw [runBlock_of_exec h hle, Outcome.returned_andThen]
    exact hnext (by omega) (by omega)
  · obtain ⟨m', hm', hsteps⟩ := hfirst (by omega)
    exact ⟨m', by rw [hm', Outcome.raised_andThen], hsteps⟩

/-- Beyond the limit the interpreter raises `stepLimit`, at the check after the last one allowed. -/
theorem runBlock_of_exec_of_lt {ss : List Stmt} {k : Nat} {m m' : Memory} (h : Exec ss k m m')
    (hm : m.steps ≤ stepLimit) (hk : stepLimit < m.steps + k) :
    ∃ m₁, runBlock ss m = .raised .stepLimit m₁ ∧ m₁.steps = stepLimit + 1 := by
  induction h with
  | nil m => omega
  | assign he _ ih =>
      rw [runBlock, runStmt, Memory.runAssign_of_eval he, Outcome.returned_andThen]
      exact ih (by rwa [Memory.steps_assign]) (by rwa [Memory.steps_assign])
  | @whileTrue c _ _ k₁ k₂ m m₁ _ hc hbody _ ih₁ ih₂ =>
      rw [runBlock_whileDo]
      by_cases hlt : m.steps < stepLimit
      · rw [Memory.tick_of_lt hlt, Outcome.returned_andThen,
          Memory.test_of_eval (m := m.count) hc, if_pos rfl]
        have hcount : m.count.steps = m.steps + 1 := rfl
        exact andThen_of_exec_of_lt hbody (by omega) (ih₁ (by omega)) ih₂
      · exact ⟨m.count, by rw [Memory.tick_of_not_lt hlt, Outcome.raised_andThen], by
          rw [Memory.steps_count]; omega⟩
  | @whileFalse c _ _ k m _ hc _ ih =>
      rw [runBlock_whileDo]
      by_cases hlt : m.steps < stepLimit
      · rw [Memory.tick_of_lt hlt, Outcome.returned_andThen,
          Memory.test_of_eval (m := m.count) hc, if_neg Bool.false_ne_true]
        exact ih (by rw [Memory.steps_count]; omega) (by rw [Memory.steps_count]; omega)
      · exact ⟨m.count, by rw [Memory.tick_of_not_lt hlt, Outcome.raised_andThen], by
          rw [Memory.steps_count]; omega⟩
  | ifTrue hc ht _ ih₁ ih₂ =>
      rw [runBlock_ifThen, Memory.test_of_eval hc, if_pos rfl]
      exact andThen_of_exec_of_lt ht hk (ih₁ hm) ih₂
  | ifFalse hc he _ ih₁ ih₂ =>
      rw [runBlock_ifThen, Memory.test_of_eval hc, if_neg Bool.false_ne_true]
      exact andThen_of_exec_of_lt he hk (ih₁ hm) ih₂

end While

end CounterPrograms
