import CounterPrograms.Proofs.Run.Goto
import CounterPrograms.Proofs.Run.While
import CounterPrograms.Run.Loop

/-!
# The meaning of programs apart from any limit

`Program.Ends p m m'` says in what memory a program begun with the memory `m` ends, however many
steps it takes.  There is at most one such memory (`Program.Ends.unique`), and what the interpreter
returns is in it (`Program.ends_of_runIn`).
-/

namespace CounterPrograms

namespace Program

/-- Begun with the memory `m` and without a limit, the program ends with `m'`. -/
def Ends : Program → Memory → Memory → Prop
  | loop ss, m, m' => Loop.runBlock ss m = .returned m'
  | whileDo ss, m, m' => ∃ k, While.Exec ss k m m'
  | goto is, m, m' =>
    ∃ path t, Machine.Halts is path ⟨m, Labels.carried 0 is, 0⟩ t ∧ t.memory = m'

/-- A program ends in one way at most. -/
theorem Ends.unique {p : Program} {m m₁ m₂ : Memory} (h₁ : p.Ends m m₁) (h₂ : p.Ends m m₂) :
    m₁ = m₂ := by
  cases p with
  | loop ss => exact Outcome.returned.inj (h₁.symm.trans h₂)
  | whileDo ss =>
      obtain ⟨_, hk₁⟩ := h₁
      obtain ⟨_, hk₂⟩ := h₂
      exact (hk₁.deterministic hk₂).2
  | goto is =>
      obtain ⟨_, _, ht₁, rfl⟩ := h₁
      obtain ⟨_, _, ht₂, rfl⟩ := h₂
      rw [(ht₁.deterministic ht₂).2]

/-- What a program returns that is run in its own language is what it ends with. -/
theorem ends_of_runIn {p : Program} {inputs : Inputs} {s : Store} {m : Memory}
    (hm : Memory.bindAll inputs .empty = .returned m) (h : p.runIn p.language inputs = .ok s) :
    ∃ m', p.Ends m m' ∧ m'.store = s := by
  unfold runIn at h
  split at h
  · next t ht =>
      obtain rfl := Except.ok.inj h
      cases p with
      | loop ss =>
          rw [language, Machine.evaluate_loop hm] at ht
          obtain ⟨m', hm', rfl⟩ := Outcome.map_eq_returned_iff.mp ht
          exact ⟨m', hm', rfl⟩
      | whileDo ss =>
          rw [language, Machine.evaluate_whileDo hm] at ht
          obtain ⟨m', hm', rfl⟩ := Outcome.map_eq_returned_iff.mp ht
          exact ⟨m', While.exec_of_runBlock hm', rfl⟩
      | goto is =>
          obtain ⟨_, path, hr, _⟩ :=
            Machine.start_eq_returned_iff.mp (Machine.start_of_evaluate hm ht)
          exact ⟨t.memory, ⟨path, t, hr, rfl⟩, rfl⟩
  · cases h

end Program

end CounterPrograms
