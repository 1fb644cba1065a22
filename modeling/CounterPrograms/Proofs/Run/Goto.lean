import CounterPrograms.Proofs.Labels
import CounterPrograms.Proofs.Run.Memory

/-!
# GOTO programs without a limit

`Machine.Halts code path s t` is the meaning of instructions apart from any limit: from the state
`s` the instructions at the positions in `path` are executed, one after the other, and the machine
comes to its end in the state `t`.  The interpreter returns exactly the halting runs of at most so
many instructions as it may execute (`Machine.run_eq_returned_iff`), and if no instruction can fail,
it raises nothing but `stepLimit` (`Machine.eq_stepLimit_of_run`).  The statements of GOTO programs
fail only at jumps to labels that are not there (`Machine.Executable.of_failed`).
-/

namespace CounterPrograms

namespace Machine

/-! ### Executing one statement -/

section execute

variable {s : Machine} {x l : String} {e : Expr} {c : Condition} {p : Nat}

theorem execute_assign {n : Int} (h : e.eval s.memory.store = .ok n) :
    s.execute (.assign x e) =
      .going { s with memory := s.memory.assign x n, pc := s.pc + 1 } := by
  rw [execute, h]
  rfl

theorem jump_of_lookup (h : s.labels.lookup l = some p) : s.jump l = .going { s with pc := p } := by
  rw [jump, h]

theorem execute_goto (h : s.labels.lookup l = some p) :
    s.execute (.goto l) = .going { s with pc := p } :=
  jump_of_lookup h

theorem execute_ifGoto {b : Bool} (h : c.eval s.memory.store = .ok b)
    (hl : s.labels.lookup l = some p) :
    s.execute (.ifGoto c l) = .going { s with pc := if b then p else s.pc + 1 } := by
  rw [execute, h]
  cases b with
  | true => exact jump_of_lookup hl
  | false => rfl

theorem jump_eq_going {t : Machine} (h : s.jump l = .going t) :
    ∃ p, s.labels.lookup l = some p ∧ t = { s with pc := p } := by
  unfold jump at h
  split at h
  · next p hp => exact ⟨p, hp, (Step.going.inj h).symm⟩
  · cases h

theorem jump_ne_halted (t : Machine) : s.jump l ≠ .halted t := by
  intro h
  unfold jump at h
  split at h <;> cases h

/-- What an instruction after which the machine goes on has done: it has assigned a value, jumped,
or not jumped. -/
theorem execute_eq_going {st : Stmt} {t : Machine} (h : s.execute st = .going t) :
    (∃ x e n, st = .assign x e ∧ e.eval s.memory.store = .ok n ∧
      t = { s with memory := s.memory.assign x n, pc := s.pc + 1 }) ∨
    (∃ l p, st = .goto l ∧ s.labels.lookup l = some p ∧ t = { s with pc := p }) ∨
    (∃ c l p, st = .ifGoto c l ∧ c.eval s.memory.store = .ok true ∧
      s.labels.lookup l = some p ∧ t = { s with pc := p }) ∨
    (∃ c l, st = .ifGoto c l ∧ c.eval s.memory.store = .ok false ∧
      t = { s with pc := s.pc + 1 }) := by
  cases st with
  | assign x e =>
      rw [execute] at h
      split at h
      · next n hn => exact .inl ⟨x, e, n, rfl, hn, (Step.going.inj h).symm⟩
      · cases h
  | goto l =>
      obtain ⟨p, hp, ht⟩ := jump_eq_going h
      exact .inr (.inl ⟨l, p, rfl, hp, ht⟩)
  | ifGoto c l =>
      rw [execute] at h
      split at h
      · next hc =>
          obtain ⟨p, hp, ht⟩ := jump_eq_going h
          exact .inr (.inr (.inl ⟨c, l, p, rfl, hc, hp, ht⟩))
      · next hc => exact .inr (.inr (.inr ⟨c, l, rfl, hc, (Step.going.inj h).symm⟩))
      · cases h
  | halt | loop | whileDo | ifThen | foreign => cases h

theorem execute_eq_halted {st : Stmt} {t : Machine} (h : s.execute st = .halted t) :
    st = .halt ∧ t = s := by
  cases st with
  | halt => exact ⟨rfl, (Step.halted.inj h).symm⟩
  | assign x e =>
      rw [execute] at h
      split at h <;> cases h
  | goto l => exact absurd h (jump_ne_halted t)
  | ifGoto c l =>
      rw [execute] at h
      split at h
      · exact absurd h (jump_ne_halted t)
      · cases h
      · cases h
  | loop | whileDo | ifThen | foreign => cases h

theorem jump_eq_failed {t : Machine} {err : RunError} (h : s.jump l = .failed err t) :
    s.labels.lookup l = none ∧ err = .undefinedLabel l ∧ t = s := by
  unfold jump at h
  split at h
  · cases h
  · next hl =>
      obtain ⟨herr, ht⟩ := Step.failed.inj h
      exact ⟨hl, herr.symm, ht.symm⟩

/-- An instruction that fails leaves the machine as it was. -/
theorem execute_eq_failed {st : Stmt} {t : Machine} {err : RunError}
    (h : s.execute st = .failed err t) : t = s := by
  cases st with
  | assign x e =>
      rw [execute] at h
      split at h
      · cases h
      · exact (Step.failed.inj h).2.symm
  | goto l => exact (jump_eq_failed h).2.2
  | ifGoto c l =>
      rw [execute] at h
      split at h
      · exact (jump_eq_failed h).2.2
      · cases h
      · exact (Step.failed.inj h).2.symm
  | halt => cases h
  | loop | whileDo | ifThen | foreign => exact (Step.failed.inj h).2.symm

end execute

/-! ### Runs -/

/-- Runs that have not come to an end, with the positions of the instructions executed. -/
inductive Steps (code : List Instruction) : List Nat → Machine → Machine → Prop
  | refl (s : Machine) : Steps code [] s s
  | step {s t u : Machine} {i : Instruction} {path : List Nat} :
      code[s.pc]? = some i → s.count.execute i.statement = .going t → Steps code path t u →
      Steps code (s.pc :: path) s u

/-- Runs that have come to an end, at a `HALT` or behind the last instruction. -/
inductive Halts (code : List Instruction) : List Nat → Machine → Machine → Prop
  | behind {s : Machine} : code[s.pc]? = none → Halts code [] s s
  | halt {s t : Machine} {i : Instruction} :
      code[s.pc]? = some i → s.count.execute i.statement = .halted t → Halts code [s.pc] s t
  | step {s t u : Machine} {i : Instruction} {path : List Nat} :
      code[s.pc]? = some i → s.count.execute i.statement = .going t → Halts code path t u →
      Halts code (s.pc :: path) s u

variable {code : List Instruction} {p q : List Nat} {s t u : Machine}

theorem Steps.single {i : Instruction} (hi : code[s.pc]? = some i)
    (h : s.count.execute i.statement = .going t) : Steps code [s.pc] s t :=
  .step hi h (.refl t)

theorem Steps.trans (h : Steps code p s t) (h' : Steps code q t u) : Steps code (p ++ q) s u := by
  induction h with
  | refl s => exact h'
  | step hi he _ ih => exact .step hi he (ih h')

theorem Steps.halts (h : Steps code p s t) (h' : Halts code q t u) : Halts code (p ++ q) s u := by
  induction h with
  | refl s => exact h'
  | step hi he _ ih => exact .step hi he (ih h')

theorem Halts.deterministic (h : Halts code p s t) (h' : Halts code q s u) : p = q ∧ t = u := by
  induction h generalizing q with
  | behind hn =>
      cases h' with
      | behind _ => exact ⟨rfl, rfl⟩
      | halt hi _ | step hi _ _ =>
          rw [hn] at hi
          cases hi
  | halt hi he =>
      cases h' with
      | behind hn =>
          rw [hn] at hi
          cases hi
      | halt hi' he' =>
          obtain rfl := Option.some.inj (hi.symm.trans hi')
          obtain rfl := Step.halted.inj (he.symm.trans he')
          exact ⟨rfl, rfl⟩
      | step hi' he' _ =>
          obtain rfl := Option.some.inj (hi.symm.trans hi')
          cases he.symm.trans he'
  | step hi he _ ih =>
      cases h' with
      | behind hn =>
          rw [hn] at hi
          cases hi
      | halt hi' he' =>
          obtain rfl := Option.some.inj (hi.symm.trans hi')
          cases he.symm.trans he'
      | step hi' he' hr =>
          obtain rfl := Option.some.inj (hi.symm.trans hi')
          obtain rfl := Step.going.inj (he.symm.trans he')
          obtain ⟨rfl, rfl⟩ := ih hr
          exact ⟨rfl, rfl⟩

theorem Halts.eq_of_nil (h : Halts [] p s t) : t = s := by
  cases h with
  | behind _ => rfl
  | halt hi _ | step hi _ _ => cases hi

/-- The interpreter returns exactly what a halting run within its limit ends with. -/
theorem run_eq_returned_iff {left : Nat} :
    run code left s = .returned t ↔ ∃ p, Halts code p s t ∧ p.length ≤ left := by
  constructor
  · intro h
    induction left generalizing s with
    | zero =>
        rw [run] at h
        split at h
        · cases h
        · next hlt =>
            obtain rfl := Outcome.returned.inj h
            exact ⟨[], .behind (List.getElem?_eq_none (Nat.le_of_not_lt hlt)), Nat.le_refl 0⟩
    | succ left ih =>
        rw [run] at h
        cases hi : code[s.pc]? with
        | none =>
            rw [hi] at h
            obtain rfl := Outcome.returned.inj h
            exact ⟨[], .behind hi, Nat.zero_le _⟩
        | some i =>
            simp only [hi] at h
            cases he : s.count.execute i.statement with
            | going s' =>
                rw [he] at h
                obtain ⟨p, hp, hle⟩ := ih h
                exact ⟨s.pc :: p, .step hi he hp, Nat.succ_le_succ hle⟩
            | halted s' =>
                rw [he] at h
                obtain rfl := Outcome.returned.inj h
                exact ⟨[s.pc], .halt hi he, Nat.succ_le_succ (Nat.zero_le left)⟩
            | failed e s' =>
                rw [he] at h
                cases h
  · rintro ⟨p, h, hle⟩
    induction h generalizing left with
    | @behind s hn =>
        have hlt : ¬ s.pc < code.length := Nat.not_lt.mpr (List.getElem?_eq_none_iff.mp hn)
        cases left with
        | zero => rw [run, if_neg hlt]
        | succ left => rw [run, hn]
    | halt hi he =>
        obtain ⟨left, rfl⟩ : ∃ l, left = l + 1 := ⟨left - 1, by simp at hle; omega⟩
        simp only [run, hi, he]
    | step hi he _ ih =>
        rw [List.length_cons] at hle
        obtain ⟨left, rfl⟩ : ∃ l, left = l + 1 := ⟨left - 1, by omega⟩
        simp only [run, hi, he]
        exact ih (by omega)

theorem start_of_nodup (h : (Labels.names code).Nodup) (s : Machine) :
    start code s = run code (stepLimit - s.memory.steps)
      { s with labels := Labels.carried 0 code, pc := 0 } := by
  rw [start, Labels.table_eq_ok_iff.mpr ⟨rfl, h⟩]

/-- A program returns iff no label is repeated and it halts within the limit. -/
theorem start_eq_returned_iff :
    start code s = .returned t ↔
      (Labels.names code).Nodup ∧
        ∃ p, Halts code p { s with labels := Labels.carried 0 code, pc := 0 } t ∧
          p.length ≤ stepLimit - s.memory.steps := by
  constructor
  · intro h
    cases htable : Labels.table 0 code with
    | error r =>
        rw [start, htable] at h
        cases h
    | ok ps =>
        have hn := (Labels.table_eq_ok_iff.mp htable).2
        rw [start_of_nodup hn] at h
        exact ⟨hn, run_eq_returned_iff.mp h⟩
  · rintro ⟨hn, hp⟩
    rw [start_of_nodup hn]
    exact run_eq_returned_iff.mpr hp

/-! ### Places without instruction -/

/-- A program that has a place without instruction is refused for it or for a repeated label before
it, and nothing has changed but the labels. -/
theorem exists_refuse_eq (code : List Instruction) (found : Foreign) :
    ∃ e labels, ((∃ l, e = .duplicateLabel l) ∨ ∃ n, e = .unknownInstruction n found) ∧
      ∀ s : Machine, s.refuse code found = .raised e { s with labels := labels } := by
  unfold refuse
  cases Labels.table 0 code with
  | error r => exact ⟨_, r.before, .inl ⟨r.label, rfl⟩, fun _ => rfl⟩
  | ok labels => exact ⟨_, labels, .inr ⟨code.length + 1, rfl⟩, fun _ => rfl⟩

theorem start_of_evaluate {inputs : Inputs} {m : Memory}
    (hm : Memory.bindAll inputs .empty = .returned m)
    (h : s.evaluate .goto (.goto code) inputs = .returned t) :
    start code { s with memory := m } = .returned t := by
  cases habsent : (Program.goto code).absent? with
  | none => rw [← evaluate_goto hm habsent, h]
  | some found =>
      obtain ⟨e, labels, _, hrefuse⟩ := exists_refuse_eq code.tail found
      cases (h.symm.trans (evaluate_goto_absent hm habsent s)).trans (hrefuse _)

/-! ### Statements that cannot fail -/

/-- The statements of GOTO programs that jump to no label but the given ones. -/
inductive Closed (labels : List String) : Stmt → Prop
  | assign {x : String} {e : Expr} : e.Proper → Closed labels (.assign x e)
  | goto {l : String} : l ∈ labels → Closed labels (.goto l)
  | ifGoto {c : Condition} {l : String} : c.Proper → l ∈ labels → Closed labels (.ifGoto c l)
  | halt : Closed labels .halt

theorem exists_lookup {labels : List (String × Nat)} {l : String}
    (h : l ∈ labels.map Prod.fst) : ∃ p, labels.lookup l = some p :=
  Option.ne_none_iff_exists'.mp fun hnone => Labels.lookup_eq_none_iff.mp hnone h

theorem labels_of_execute {st : Stmt} (h : s.execute st = .going t) : t.labels = s.labels := by
  rcases execute_eq_going h with ⟨_, _, _, _, _, rfl⟩ | ⟨_, _, _, _, rfl⟩ |
    ⟨_, _, _, _, _, _, rfl⟩ | ⟨_, _, _, _, rfl⟩ <;> rfl

/-- The statements of GOTO programs, wherever they jump. -/
def Executable (st : Stmt) : Prop :=
  ∃ labels, Closed labels st

theorem closed_iff {labels : List String} {st : Stmt} :
    Closed labels st ↔ Executable st ∧ ∀ l, st.jumpTarget? = some l → l ∈ labels := by
  constructor
  · intro h
    refine ⟨⟨labels, h⟩, fun l hl => ?_⟩
    cases h with
    | assign _ | halt => cases hl
    | goto hmem | ifGoto _ hmem =>
        obtain rfl := Option.some.inj hl
        exact hmem
  · rintro ⟨⟨_, h⟩, htarget⟩
    cases h with
    | assign he => exact .assign he
    | goto _ => exact .goto (htarget _ rfl)
    | ifGoto hc _ => exact .ifGoto hc (htarget _ rfl)
    | halt => exact .halt

theorem Executable.absent?_eq_none (h : ∀ i ∈ code, Executable i.statement) :
    (Program.goto code).absent? = none := by
  cases code with
  | nil => rfl
  | cons i rest =>
      obtain ⟨st, label⟩ := i
      obtain ⟨_, hst⟩ := h ⟨st, label⟩ List.mem_cons_self
      cases hst <;> rfl

/-- A statement of a GOTO program fails only where it jumps to a label that is not there. -/
theorem Executable.of_failed {st : Stmt} {e : RunError} (h : Executable st)
    (hf : s.execute st = .failed e t) :
    ∃ l, st.jumpTarget? = some l ∧ s.labels.lookup l = none ∧ e = .undefinedLabel l := by
  obtain ⟨_, hst⟩ := h
  cases hst with
  | assign he =>
      obtain ⟨n, hn⟩ := he.eval_ok s.memory.store
      rw [execute_assign hn] at hf
      cases hf
  | @goto l _ =>
      obtain ⟨hl, herr, _⟩ := jump_eq_failed hf
      exact ⟨l, rfl, hl, herr⟩
  | @ifGoto c l hc _ =>
      obtain ⟨b, hb⟩ := hc.eval_ok s.memory.store
      rw [execute, hb] at hf
      cases b with
      | true =>
          obtain ⟨hl, herr, _⟩ := jump_eq_failed hf
          exact ⟨l, rfl, hl, herr⟩
      | false => cases hf
  | halt => cases hf

theorem Closed.execute_ne_failed {st : Stmt} (h : Closed (s.labels.map Prod.fst) st)
    (e : RunError) : s.execute st ≠ .failed e t := by
  intro hf
  obtain ⟨hexec, htarget⟩ := closed_iff.mp h
  obtain ⟨l, hst, hnone, _⟩ := hexec.of_failed hf
  obtain ⟨p, hp⟩ := exists_lookup (htarget l hst)
  cases hnone.symm.trans hp

/-! ### How runs fail -/

/-- A run that an error stops has come to the limit, or to an instruction that fails. -/
theorem exists_of_run_raised {left : Nat} {e : RunError} (h : run code left s = .raised e t) :
    e = .stepLimit ∨
      ∃ i ∈ code, ∃ u : Machine, u.labels = s.labels ∧ u.execute i.statement = .failed e t := by
  induction left generalizing s with
  | zero =>
      rw [run] at h
      split at h
      · exact .inl (Outcome.raised.inj h).1.symm
      · cases h
  | succ left ih =>
      rw [run] at h
      cases hi : code[s.pc]? with
      | none =>
          rw [hi] at h
          cases h
      | some i =>
          simp only [hi] at h
          cases he : s.count.execute i.statement with
          | going s' =>
              rw [he] at h
              have hl : s'.labels = s.labels := labels_of_execute (s := s.count) he
              rw [← hl]
              exact ih h
          | halted s' =>
              rw [he] at h
              cases h
          | failed e' s' =>
              rw [he] at h
              obtain ⟨rfl, rfl⟩ := Outcome.raised.inj h
              exact .inr ⟨i, List.mem_of_getElem? hi, s.count, rfl, he⟩

/-- If no instruction can fail, only the limit stops a run with an error. -/
theorem eq_stepLimit_of_run (hcode : ∀ i ∈ code, Closed (s.labels.map Prod.fst) i.statement)
    {left : Nat} {e : RunError} (h : run code left s = .raised e t) : e = .stepLimit := by
  refine (exists_of_run_raised h).resolve_right ?_
  rintro ⟨i, hi, u, hlabels, hf⟩
  have hclosed : Closed (u.labels.map Prod.fst) i.statement := by
    rw [hlabels]
    exact hcode i hi
  exact hclosed.execute_ne_failed e hf

end Machine

end CounterPrograms
