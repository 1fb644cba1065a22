import CounterPrograms.Proofs.Run.Goto

/-!
# The way of a run through a program

A machine that jumps to the instruction it has just executed is where it was, and jumps there again:
such a run does not halt (`Machine.not_halts_of_stay`).  So a halting run that begins at the first
instruction moves forward first, and of its instructions at least two are not followed by a move
backward, if it has more than one (`Machine.Halts.backwardMoves_add_two_le`).
-/

namespace CounterPrograms

namespace Machine

/-- The number of moves that do not lead forward, the one from an instruction to itself among
them. -/
def backwardMoves : List Nat → Nat
  | i :: j :: rest => (if j ≤ i then 1 else 0) + backwardMoves (j :: rest)
  | _ => 0

theorem backwardMoves_le (i : Nat) (rest : List Nat) :
    backwardMoves (i :: rest) ≤ rest.length := by
  induction rest generalizing i with
  | nil => exact Nat.le_refl 0
  | cons j rest ih =>
      have h := ih j
      rw [backwardMoves, List.length_cons]
      split <;> omega

variable {code : List Instruction} {path : List Nat} {s t u : Machine}

theorem Halts.head_eq {j : Nat} (h : Halts code (j :: path) s t) : j = s.pc := by
  cases h with
  | halt _ _ => rfl
  | step _ _ _ => rfl

theorem Halts.pc_lt {j : Nat} (h : Halts code (j :: path) s t) : s.pc < code.length := by
  cases h with
  | halt hi _ | step hi _ _ => exact (List.getElem?_eq_some_iff.mp hi).1

/-- A machine that has gone on where it was repeats that. -/
theorem execute_of_stay {st : Stmt} (h : s.execute st = .going t) (hpc : t.pc = s.pc) :
    t.count.execute st = .going t.count := by
  rcases execute_eq_going h with ⟨x, e, n, rfl, _, rfl⟩ | ⟨l, p, rfl, hl, rfl⟩ |
    ⟨c, l, p, rfl, hc, hl, rfl⟩ | ⟨c, l, rfl, _, rfl⟩
  · exact absurd hpc (Nat.succ_ne_self s.pc)
  · exact execute_goto hl
  · exact execute_ifGoto (b := true) hc hl
  · exact absurd hpc (Nat.succ_ne_self s.pc)

/-- A machine that has gone on where it was does not halt. -/
theorem not_halts_of_stay {i : Instruction} (hi : code[s.pc]? = some i)
    (he : s.count.execute i.statement = .going t) (hpc : t.pc = s.pc) : ¬ Halts code path t u := by
  intro h
  induction h generalizing s with
  | behind hn =>
      rw [hpc, hi] at hn
      cases hn
  | halt hi' he' =>
      rw [hpc, hi] at hi'
      obtain rfl := Option.some.inj hi'
      rw [(execute_eq_halted he').1] at he
      cases he
  | step hi' he' _ ih =>
      have hii := hi'
      rw [hpc, hi] at hii
      obtain rfl := Option.some.inj hii
      have hstay := execute_of_stay he hpc
      exact ih hi' he' (by rw [← Step.going.inj (hstay.symm.trans he')]; rfl)

/-- From the first instruction on, a halting run moves backward so seldom that two more moves do
not make it longer, unless it is of one instruction only. -/
theorem Halts.backwardMoves_add_two_le (h : Halts code path s t) (hs : s.pc = 0) :
    backwardMoves path + 2 ≤ max path.length 2 := by
  cases h with
  | behind _ => exact Nat.le_max_right _ _
  | halt _ _ => exact Nat.le_max_right _ _
  | @step _ s' _ _ path hi he hr =>
      cases path with
      | nil => exact Nat.le_max_right _ _
      | cons j rest =>
          have hj : j ≠ s.pc := by
            intro hj
            exact not_halts_of_stay hi he (hr.head_eq.symm.trans hj) hr
          have hle := backwardMoves_le j rest
          rw [backwardMoves, if_neg (by omega)]
          simp only [List.length_cons]
          omega

end Machine

end CounterPrograms
