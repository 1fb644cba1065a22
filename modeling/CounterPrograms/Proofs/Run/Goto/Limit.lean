import CounterPrograms.Proofs.Program.Proper
import CounterPrograms.Proofs.Run.Goto

/-!
# GOTO programs cut at the limit

The machine without a limit, told by what each instruction does: `Machine.Moves` is one instruction,
and `Machine.Reaches code m₀ n m p` says that the machine, begun at the first instruction with the
memory `m₀`, stands at the position `p` with the memory `m` once it has executed `n` instructions.
There are two ways to stop: it finishes at a `HALT` or behind the last instruction
(`Machine.Finishes`), or it takes a jump to a label that no instruction carries (`Machine.Misses`).

The interpreter goes where the machine goes (`Machine.Reaches.run_eq`), and after any number of
instructions the machine has stopped or stands at an instruction (`Machine.stops_or_reaches`).  So
the interpreter returns, raises `undefinedLabel` or raises `stepLimit` according to what the machine
does with its first `stepLimit` instructions (`Program.evaluate_goto_iff`).
-/

namespace CounterPrograms

namespace Machine

variable {code : List Instruction} {m m' m₀ : Memory} {n p p' : Nat} {l : String}

/-! ### The machine -/

/-- The instruction at position `p` carries the label `l`. -/
def Carries (code : List Instruction) (p : Nat) (l : String) : Prop :=
  ∃ i, code[p]? = some i ∧ i.label = some l

/-- The instruction at position `p` is a jump to `l`, and it is taken. -/
inductive Jumps (code : List Instruction) (m : Memory) (p : Nat) (l : String) : Prop
  | goto {label : Option String} : code[p]? = some ⟨.goto l, label⟩ → Jumps code m p l
  | ifGoto {c : Condition} {label : Option String} :
      code[p]? = some ⟨.ifGoto c l, label⟩ → c.eval m.store = .ok true → Jumps code m p l

/-- What executing the instruction at position `p` does: it gives the variable of an assignment its
value, moves to the label of a jump that is taken, or passes over a jump that is not taken. -/
inductive Moves (code : List Instruction) (m : Memory) (p : Nat) : Memory → Nat → Prop
  | assign {x : String} {e : Expr} {v : Int} {label : Option String} :
      code[p]? = some ⟨.assign x e, label⟩ → e.eval m.store = .ok v →
      Moves code m p (m.assign x v) (p + 1)
  | jump {l : String} {q : Nat} : Jumps code m p l → Carries code q l → Moves code m p m q
  | pass {c : Condition} {l : String} {label : Option String} :
      code[p]? = some ⟨.ifGoto c l, label⟩ → c.eval m.store = .ok false →
      Moves code m p m (p + 1)

/-- Begun at the first instruction with the memory `m₀`, the machine stands at a position with a
memory once it has executed a number of instructions. -/
inductive Reaches (code : List Instruction) (m₀ : Memory) : Nat → Memory → Nat → Prop
  | start : Reaches code m₀ 0 m₀ 0
  | step {n p p' : Nat} {m m' : Memory} :
      Reaches code m₀ n m p → Moves code m p m' p' → Reaches code m₀ (n + 1) m' p'

/-- The machine has come to its end after a number of instructions, behind the last instruction or
with the `HALT` at a position. -/
inductive Finishes (code : List Instruction) (m₀ : Memory) : Nat → Memory → Nat → Prop
  | behind {n : Nat} {m : Memory} :
      Reaches code m₀ n m code.length → Finishes code m₀ n m code.length
  | halt {n p : Nat} {m : Memory} {label : Option String} :
      Reaches code m₀ n m p → code[p]? = some ⟨.halt, label⟩ → Finishes code m₀ (n + 1) m p

/-- After `n` instructions the machine takes a jump to `l`, but no instruction carries that label. -/
structure Misses (code : List Instruction) (m₀ : Memory) (l : String) (n : Nat) (m : Memory)
    (p : Nat) : Prop where
  reaches : Reaches code m₀ n m p
  jumps : Jumps code m p l
  missing : l ∉ Labels.names code

theorem lt_length_of_getElem? {i : Instruction} (h : code[p]? = some i) : p < code.length :=
  (List.getElem?_eq_some_iff.mp h).1

theorem Moves.pc_le (h : Moves code m p m' p') : p' ≤ code.length := by
  cases h with
  | assign hi _ => exact lt_length_of_getElem? hi
  | jump _ hc =>
      obtain ⟨i, hi, _⟩ := hc
      exact Nat.le_of_lt (lt_length_of_getElem? hi)
  | pass hi _ => exact lt_length_of_getElem? hi

theorem Reaches.pc_le (h : Reaches code m₀ n m p) : p ≤ code.length := by
  cases h with
  | start => exact Nat.zero_le _
  | step _ hmove => exact hmove.pc_le

/-! ### What an instruction can do -/

theorem lookup_carried_of_carries (hd : (Labels.names code).Nodup) (h : Carries code p l) :
    (Labels.carried 0 code).lookup l = some p := by
  obtain ⟨i, hi, hl⟩ := h
  rw [Labels.lookup_carried_of_nodup hd hi hl, Nat.zero_add]

theorem exists_carries (h : l ∈ Labels.names code) : ∃ q, Carries code q l := by
  obtain ⟨i, hi, hl⟩ := List.mem_filterMap.mp h
  obtain ⟨q, hq⟩ := List.mem_iff_getElem?.mp hi
  exact ⟨q, i, hq, hl⟩

theorem Jumps.moves_or_missing (h : Jumps code m p l) :
    (∃ m' p', Moves code m p m' p') ∨ ∃ l, Jumps code m p l ∧ l ∉ Labels.names code := by
  by_cases hl : l ∈ Labels.names code
  · obtain ⟨q, hq⟩ := exists_carries hl
    exact .inl ⟨m, q, .jump h hq⟩
  · exact .inr ⟨l, h, hl⟩

/-- An instruction of a GOTO program moves the machine, or halts it, or is a jump without a
target. -/
theorem moves_or_stops {i : Instruction} (hi : code[p]? = some i) (hw : i.WellFormed) (m : Memory) :
    (∃ label, i = ⟨.halt, label⟩) ∨
      (∃ m' p', Moves code m p m' p') ∨ ∃ l, Jumps code m p l ∧ l ∉ Labels.names code := by
  have hst := hw.statement
  obtain ⟨st, label⟩ := i
  cases st with
  | assign x e =>
      obtain ⟨v, hv⟩ := hst.2.proper.eval_ok m.store
      exact .inr (.inl ⟨_, _, .assign hi hv⟩)
  | goto l => exact .inr (Jumps.goto hi).moves_or_missing
  | ifGoto c l =>
      obtain ⟨b, hb⟩ := hst.2.1.proper.eval_ok m.store
      cases b with
      | true => exact .inr (Jumps.ifGoto hi hb).moves_or_missing
      | false => exact .inr (.inl ⟨_, _, .pass hi hb⟩)
  | halt => exact .inl ⟨label, rfl⟩
  | loop v body => cases hst.1
  | whileDo c body => cases hst.1
  | ifThen c t e => cases e <;> cases hst.1
  | foreign f => exact hst.elim

/-- Within any number of instructions the machine stops, or it stands at an instruction after as
many. -/
theorem stops_or_reaches (hw : ∀ i ∈ code, i.WellFormed) (m₀ : Memory) (limit : Nat) :
    (∃ n m p, Finishes code m₀ n m p ∧ n ≤ limit) ∨
      (∃ l n m p, Misses code m₀ l n m p ∧ n < limit) ∨
      ∃ m p, Reaches code m₀ limit m p ∧ p < code.length := by
  -- A machine that stands behind the last instruction has finished.
  have hend : ∀ {k m p}, Reaches code m₀ k m p → k ≤ limit →
      (∃ n m p, Finishes code m₀ n m p ∧ n ≤ limit) ∨ p < code.length := by
    intro k m p hr hk
    rcases Nat.lt_or_eq_of_le hr.pc_le with hlt | rfl
    · exact .inr hlt
    · exact .inl ⟨k, m, _, .behind hr, hk⟩
  have hall : ∀ k, k ≤ limit → (∃ n m p, Finishes code m₀ n m p ∧ n ≤ limit) ∨
      (∃ l n m p, Misses code m₀ l n m p ∧ n < limit) ∨
      ∃ m p, Reaches code m₀ k m p ∧ p < code.length := by
    intro k hk
    induction k with
    | zero => exact (hend .start hk).imp_right fun hlt => .inr ⟨m₀, 0, .start, hlt⟩
    | succ k ih =>
        rcases ih (Nat.le_of_succ_le hk) with hf | hm | ⟨m, p, hr, hlt⟩
        · exact .inl hf
        · exact .inr (.inl hm)
        · have hi := List.getElem?_eq_getElem hlt
          rcases moves_or_stops hi (hw _ (List.getElem_mem hlt)) m with
            ⟨label, hhalt⟩ | ⟨m', p', hmove⟩ | ⟨l, hjump, hl⟩
          · exact .inl ⟨k + 1, m, p, .halt hr (hi.trans (congrArg some hhalt)), hk⟩
          · have hr' := hr.step hmove
            exact (hend hr' hk).imp_right fun hlt => .inr ⟨m', p', hr', hlt⟩
          · exact .inr (.inl ⟨l, k, m, p, ⟨hr, hjump, hl⟩, hk⟩)
  exact hall limit (Nat.le_refl limit)

/-! ### The interpreter -/

/-- The machine as the interpreter has it: with the labels of the program, and `n` instructions
counted. -/
def standing (code : List Instruction) (n : Nat) (m : Memory) (p : Nat) : Machine :=
  ⟨{ m with steps := n }, Labels.carried 0 code, p⟩

theorem execute_of_jumps {i : Instruction} (h : Jumps code m p l) (hi : code[p]? = some i) :
    (standing code n m p).count.execute i.statement = (standing code (n + 1) m p).jump l := by
  cases h with
  | goto hgoto =>
      obtain rfl := Option.some.inj (hi.symm.trans hgoto)
      rfl
  | ifGoto hif hc =>
      obtain rfl := Option.some.inj (hi.symm.trans hif)
      have hc' : Condition.eval (standing code n m p).count.memory.store _ = .ok true := hc
      rw [execute, hc']
      rfl

theorem Moves.execute_eq (hd : (Labels.names code).Nodup) (h : Moves code m p m' p') (n : Nat) :
    ∃ i, code[p]? = some i ∧
      (standing code n m p).count.execute i.statement = .going (standing code (n + 1) m' p') := by
  cases h with
  | @assign x e v label hi he =>
      refine ⟨_, hi, ?_⟩
      have he' : e.eval (standing code n m p).count.memory.store = .ok v := he
      have hm : (standing code n m p).count.memory.assign x v =
          { m.assign x v with steps := n + 1 } := Memory.assign_with_steps m x v (n + 1)
      rw [execute_assign he', hm]
      rfl
  | @jump l q hj hc =>
      have hl : (standing code (n + 1) m p).labels.lookup l = some p' :=
        lookup_carried_of_carries hd hc
      obtain ⟨i, hi⟩ : ∃ i, code[p]? = some i := by
        cases hj with
        | goto hi => exact ⟨_, hi⟩
        | ifGoto hi _ => exact ⟨_, hi⟩
      refine ⟨i, hi, ?_⟩
      rw [execute_of_jumps hj hi, jump_of_lookup hl]
      rfl
  | @pass c l label hi hc =>
      refine ⟨_, hi, ?_⟩
      have hc' : c.eval (standing code n m p).count.memory.store = .ok false := hc
      rw [execute, hc']
      rfl

/-- The interpreter goes where the machine goes, as long as it is allowed to. -/
theorem Reaches.run_eq (hd : (Labels.names code).Nodup) (h : Reaches code m₀ n m p) {limit : Nat}
    (hn : n ≤ limit) :
    run code limit (standing code 0 m₀ 0) = run code (limit - n) (standing code n m p) := by
  induction h with
  | start => rfl
  | @step k p p' m m' _ hmove ih =>
      obtain ⟨i, hi, he⟩ := hmove.execute_eq hd k
      have hleft : limit - k = limit - (k + 1) + 1 := by omega
      have hi' : code[(standing code k m p).pc]? = some i := hi
      rw [ih (by omega), hleft, run]
      simp only [hi', he]

theorem run_of_finishes (hd : (Labels.names code).Nodup) {limit : Nat}
    (h : Finishes code m₀ n m p) (hn : n ≤ limit) :
    run code limit (standing code 0 m₀ 0) = .returned (standing code n m p) := by
  cases h with
  | behind hr =>
      have hpc : ¬ (standing code n m code.length).pc < code.length := Nat.lt_irrefl _
      rw [hr.run_eq hd hn]
      cases limit - n with
      | zero => rw [run, if_neg hpc]
      | succ left => rw [run, List.getElem?_eq_none (Nat.le_of_not_lt hpc)]
  | @halt k p m label hr hi =>
      have hleft : limit - k = limit - (k + 1) + 1 := by omega
      have hi' : code[(standing code k m p).pc]? = some ⟨.halt, label⟩ := hi
      rw [hr.run_eq hd (by omega), hleft, run]
      simp only [hi']
      rfl

theorem run_of_misses (hd : (Labels.names code).Nodup) {limit : Nat}
    (h : Misses code m₀ l n m p) (hn : n < limit) :
    run code limit (standing code 0 m₀ 0) =
      .raised (.undefinedLabel l) (standing code (n + 1) m p) := by
  obtain ⟨hr, hj, hl⟩ := h
  obtain ⟨i, hi⟩ : ∃ i, code[p]? = some i := by
    cases hj with
    | goto hi => exact ⟨_, hi⟩
    | ifGoto hi _ => exact ⟨_, hi⟩
  have hleft : limit - n = limit - (n + 1) + 1 := by omega
  have hi' : code[(standing code n m p).pc]? = some i := hi
  have hlookup : (standing code (n + 1) m p).labels.lookup l = none :=
      Labels.lookup_carried_eq_none_iff.mpr hl
  rw [hr.run_eq hd (by omega), hleft, run]
  simp only [hi', execute_of_jumps hj hi, jump, hlookup]

theorem run_of_reaches (hd : (Labels.names code).Nodup) {limit : Nat}
    (h : Reaches code m₀ limit m p) (hp : p < code.length) :
    run code limit (standing code 0 m₀ 0) = .raised .stepLimit (standing code (limit + 1) m p) := by
  have hp' : (standing code limit m p).pc < code.length := hp
  rw [h.run_eq hd (Nat.le_refl limit), Nat.sub_self, run, if_pos hp']
  rfl

/-- The interpreter returns iff the machine finishes within the limit. -/
theorem run_eq_returned_iff_finishes (hd : (Labels.names code).Nodup)
    (hw : ∀ i ∈ code, i.WellFormed) {limit : Nat} {t : Machine} :
    run code limit (standing code 0 m₀ 0) = .returned t ↔
      ∃ n m p, Finishes code m₀ n m p ∧ n ≤ limit ∧ t = standing code n m p := by
  constructor
  · intro h
    rcases stops_or_reaches hw m₀ limit with ⟨n, m, p, hf, hn⟩ | ⟨l, n, m, p, hm, hn⟩ |
      ⟨m, p, hr, hp⟩
    · exact ⟨n, m, p, hf, hn, Outcome.returned.inj (h.symm.trans (run_of_finishes hd hf hn))⟩
    · cases h.symm.trans (run_of_misses hd hm hn)
    · cases h.symm.trans (run_of_reaches hd hr hp)
  · rintro ⟨n, m, p, hf, hn, rfl⟩
    exact run_of_finishes hd hf hn

/-- The interpreter raises `undefinedLabel` iff the machine misses a label within the limit. -/
theorem run_eq_undefinedLabel_iff (hd : (Labels.names code).Nodup)
    (hw : ∀ i ∈ code, i.WellFormed) {limit : Nat} {t : Machine} :
    run code limit (standing code 0 m₀ 0) = .raised (.undefinedLabel l) t ↔
      ∃ n m p, Misses code m₀ l n m p ∧ n < limit ∧ t = standing code (n + 1) m p := by
  constructor
  · intro h
    rcases stops_or_reaches hw m₀ limit with ⟨n, m, p, hf, hn⟩ | ⟨k, n, m, p, hm, hn⟩ |
      ⟨m, p, hr, hp⟩
    · cases h.symm.trans (run_of_finishes hd hf hn)
    · obtain ⟨hl, rfl⟩ := Outcome.raised.inj (h.symm.trans (run_of_misses hd hm hn))
      obtain rfl := RunError.undefinedLabel.inj hl
      exact ⟨n, m, p, hm, hn, rfl⟩
    · cases h.symm.trans (run_of_reaches hd hr hp)
  · rintro ⟨n, m, p, hm, hn, rfl⟩
    exact run_of_misses hd hm hn

theorem evaluate_goto_eq_run (hd : (Labels.names code).Nodup) (hw : ∀ i ∈ code, i.WellFormed)
    {inputs : Inputs} (hm : Memory.bindAll inputs .empty = .returned m₀) (hsteps : m₀.steps = 0)
    (s : Machine) :
    s.evaluate .goto (.goto code) inputs = run code stepLimit (standing code 0 m₀ 0) := by
  obtain ⟨σ, locked, steps⟩ := m₀
  obtain rfl : steps = 0 := hsteps
  rw [evaluate_goto hm (Executable.absent?_eq_none fun i hi => (hw i hi).executable),
    start_of_nodup hd]
  rfl

end Machine

namespace Program

/-- The interpreter of GOTO programs is the machine cut at `stepLimit` instructions.  It returns if
the machine finishes with them, raises `undefinedLabel` if one of them is a jump without a target,
and otherwise raises `stepLimit` after just as many; in every case it stands where the machine
stands, and has its memory. -/
theorem evaluate_goto_iff {text : String} {q : Program} (hq : parse .goto text = .ok q)
    (hd : (Labels.names q.instructions).Nodup) (pairs : List (String × Nat)) (s : Machine) :
    (∀ t, s.evaluate .goto q (.ofNaturals pairs) = .returned t ↔
      ∃ n m p, Machine.Finishes q.instructions (Inputs.ofNaturals pairs).memory n m p ∧
        n ≤ stepLimit ∧ t = Machine.standing q.instructions n m p) ∧
    (∀ l t, s.evaluate .goto q (.ofNaturals pairs) = .raised (.undefinedLabel l) t ↔
      ∃ n m p, Machine.Misses q.instructions (Inputs.ofNaturals pairs).memory l n m p ∧
        n < stepLimit ∧ t = Machine.standing q.instructions (n + 1) m p) ∧
    ((¬ ∃ n m p, Machine.Finishes q.instructions (Inputs.ofNaturals pairs).memory n m p ∧
        n ≤ stepLimit) →
      (¬ ∃ l n m p, Machine.Misses q.instructions (Inputs.ofNaturals pairs).memory l n m p ∧
        n < stepLimit) →
      ∃ m p, Machine.Reaches q.instructions (Inputs.ofNaturals pairs).memory stepLimit m p ∧
        p < q.instructions.length ∧ s.evaluate .goto q (.ofNaturals pairs) =
          .raised .stepLimit (Machine.standing q.instructions (stepLimit + 1) m p)) := by
  obtain ⟨is, rfl, hw⟩ := wellFormed_of_parse_goto hq
  obtain ⟨hm, hi⟩ := Inputs.bindAll_memory pairs
  have hnodup : (Labels.names is).Nodup := hd
  rw [Machine.evaluate_goto_eq_run hnodup hw hm hi.steps]
  refine ⟨fun t => Machine.run_eq_returned_iff_finishes hd hw,
    fun l t => Machine.run_eq_undefinedLabel_iff hd hw, fun hfinishes hmisses => ?_⟩
  rcases Machine.stops_or_reaches hw (Inputs.ofNaturals pairs).memory stepLimit with
    hf | hmiss | ⟨m, p, hr, hp⟩
  · exact absurd hf hfinishes
  · exact absurd hmiss hmisses
  · exact ⟨m, p, hr, hp, Machine.run_of_reaches hd hr hp⟩

/-- A program that halts, misses a label or goes on too long, according to its inputs. -/
theorem evaluate_goto_iff_threefold :
    ∃ q, parse .goto "a: IF x = 0 GOTO b; x := x - 1; GOTO a; b: IF y > 2 THEN GOTO c; HALT;" =
        .ok q ∧
      (Labels.names q.instructions).Nodup ∧
      (∃ n m p, Machine.Finishes q.instructions
          (Inputs.ofNaturals [("x", 2), ("y", 1)]).memory n m p ∧
        Machine.empty.evaluate .goto q (.ofNaturals [("x", 2), ("y", 1)]) =
          .returned (Machine.standing q.instructions n m p)) ∧
      (∃ n m p, Machine.Misses q.instructions
          (Inputs.ofNaturals [("x", 2), ("y", 3)]).memory "c" n m p ∧
        Machine.empty.evaluate .goto q (.ofNaturals [("x", 2), ("y", 3)]) =
          .raised (.undefinedLabel "c") (Machine.standing q.instructions (n + 1) m p)) ∧
      ∃ m p, Machine.Reaches q.instructions (Inputs.ofNaturals [("x", 400)]).memory stepLimit m p ∧
        Machine.empty.evaluate .goto q (.ofNaturals [("x", 400)]) =
          .raised .stepLimit (Machine.standing q.instructions (stepLimit + 1) m p) := by
  obtain ⟨q, hq, hruns⟩ : ∃ q,
      parse .goto "a: IF x = 0 GOTO b; x := x - 1; GOTO a; b: IF y > 2 THEN GOTO c; HALT;" =
        .ok q ∧
      (decide (Labels.names q.instructions).Nodup &&
        decide ((Machine.empty.evaluate .goto q
          (.ofNaturals [("x", 2), ("y", 1)])).error? = none) &&
        decide ((Machine.empty.evaluate .goto q
          (.ofNaturals [("x", 2), ("y", 3)])).error? = some (.undefinedLabel "c")) &&
        decide ((Machine.empty.evaluate .goto q
          (.ofNaturals [("x", 400)])).error? = some .stepLimit)) = true :=
    Except.exists_of_any (by decide +kernel)
  simp only [Bool.and_eq_true, decide_eq_true_eq] at hruns
  obtain ⟨⟨⟨hd, hnone⟩, hlabel⟩, hlimit⟩ := hruns
  refine ⟨q, hq, hd, ?_, ?_, ?_⟩
  · obtain ⟨t, ht⟩ := Outcome.exists_of_error?_eq_none hnone
    obtain ⟨n, m, p, hf, _, rfl⟩ := ((evaluate_goto_iff hq hd _ .empty).1 t).mp ht
    exact ⟨n, m, p, hf, ht⟩
  · obtain ⟨t, ht⟩ := Outcome.exists_of_error?_eq_some hlabel
    obtain ⟨n, m, p, hm, _, rfl⟩ := ((evaluate_goto_iff hq hd _ .empty).2.1 "c" t).mp ht
    exact ⟨n, m, p, hm, ht⟩
  · obtain ⟨t, ht⟩ := Outcome.exists_of_error?_eq_some hlimit
    obtain ⟨hreturned, hundefined, hotherwise⟩ := evaluate_goto_iff hq hd [("x", 400)] .empty
    have hfinishes : ¬ ∃ n m p, Machine.Finishes q.instructions
        (Inputs.ofNaturals [("x", 400)]).memory n m p ∧ n ≤ stepLimit := by
      rintro ⟨n, m, p, hf, hn⟩
      cases ht.symm.trans ((hreturned _).mpr ⟨n, m, p, hf, hn, rfl⟩)
    have hmisses : ¬ ∃ l n m p, Machine.Misses q.instructions
        (Inputs.ofNaturals [("x", 400)]).memory l n m p ∧ n < stepLimit := by
      rintro ⟨l, n, m, p, hm, hn⟩
      cases ht.symm.trans ((hundefined l _).mpr ⟨n, m, p, hm, hn, rfl⟩)
    obtain ⟨m, p, hr, _, hraised⟩ := hotherwise hfinishes hmisses
    exact ⟨m, p, hr, hraised⟩

end Program

end CounterPrograms
