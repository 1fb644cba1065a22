import CounterPrograms.Proofs.Labels.Checks
import CounterPrograms.Proofs.Program.Proper
import CounterPrograms.Proofs.Run.Coincidence

/-!
# Idle instructions put into a program

`Padding d code padded` says that `padded` is made from `code` by putting instructions `d := 0`
without labels between its instructions.  A machine that runs `padded` does what a machine that runs
`code` does, and now and then executes an idle instruction while the other one waits.  Positions are
compared by what is left of the programs from there on: wherever the two machines stand, the rest of
`padded` is the rest of `code` with idle instructions (`Machine.Beside`).

So with at least as many steps allowed for `code`, either the limit stops the run of `padded`, or
the two runs end alike (`Machine.alike_run_padding`, `Machine.alike_evaluate_padding`).  What is
returned is the same apart from `d` (`Program.evaluate_padding`).
-/

namespace CounterPrograms

/-- `padded` is `code` with instructions `d := 0` without labels put in at any places. -/
inductive Padding (d : String) : List Instruction → List Instruction → Prop
  | nil : Padding d [] []
  | idle {code padded : List Instruction} :
      Padding d code padded → Padding d code (⟨.assign d (.num 0), none⟩ :: padded)
  | keep {code padded : List Instruction} (i : Instruction) :
      Padding d code padded → Padding d (i :: code) (i :: padded)

namespace Padding

variable {d : String} {code padded : List Instruction}

theorem names_eq (h : Padding d code padded) : Labels.names padded = Labels.names code := by
  induction h with
  | nil => rfl
  | idle _ ih => exact ih
  | keep i _ ih => rw [Labels.names_cons, Labels.names_cons, ih]

/-- An instruction of the program is somewhere in the padded one, and what follows it there is what
follows it here with idle instructions. -/
theorem exists_getElem? (h : Padding d code padded) {p : Nat} {i : Instruction}
    (hi : code[p]? = some i) :
    ∃ q, padded[q]? = some i ∧ Padding d (code.drop p) (padded.drop q) := by
  induction h generalizing p with
  | nil => cases hi
  | idle _ ih =>
      obtain ⟨q, hq, hrest⟩ := ih hi
      exact ⟨q + 1, hq, hrest⟩
  | keep j h ih =>
      cases p with
      | zero => exact ⟨0, hi, h.keep j⟩
      | succ p =>
          obtain ⟨q, hq, hrest⟩ := ih hi
          exact ⟨q + 1, hq, hrest⟩

theorem lookup_carried (h : Padding d code padded) (hd : (Labels.names code).Nodup) {l : String}
    {p : Nat} (hp : (Labels.carried 0 code).lookup l = some p) :
    ∃ q, (Labels.carried 0 padded).lookup l = some q ∧
      Padding d (code.drop p) (padded.drop q) := by
  obtain ⟨j, i, hj, hl, rfl⟩ := Labels.exists_of_lookup_carried hp
  obtain ⟨q, hq, hrest⟩ := h.exists_getElem? hj
  have hd' : (Labels.names padded).Nodup := h.names_eq ▸ hd
  have hlookup : (Labels.carried 0 padded).lookup l = some (0 + q) :=
    Labels.lookup_carried_of_nodup hd' hq hl
  rw [Nat.zero_add] at hlookup ⊢
  exact ⟨q, hlookup, hrest⟩

theorem lookup_carried_eq_none (h : Padding d code padded) {l : String}
    (hl : (Labels.carried 0 code).lookup l = none) :
    (Labels.carried 0 padded).lookup l = none := by
  rw [Labels.lookup_carried_eq_none_iff] at hl ⊢
  rwa [h.names_eq]

theorem executable (h : Padding d code padded) (his : ∀ i ∈ code, Machine.Executable i.statement) :
    ∀ i ∈ padded, Machine.Executable i.statement := by
  induction h with
  | nil => exact his
  | idle _ ih => exact List.forall_mem_cons.mpr ⟨⟨[], .assign trivial⟩, ih his⟩
  | keep i _ ih =>
      obtain ⟨hi, hrest⟩ := List.forall_mem_cons.mp his
      exact List.forall_mem_cons.mpr ⟨hi, ih hrest⟩

/-- What stands at two positions behind which the programs go on alike: nothing in both programs, an
idle instruction in the padded one, or the same instruction in both. -/
theorem cases_getElem? {p q : Nat} (h : Padding d (code.drop p) (padded.drop q)) :
    (code[p]? = none ∧ padded[q]? = none) ∨
    (padded[q]? = some ⟨.assign d (.num 0), none⟩ ∧
      Padding d (code.drop p) (padded.drop (q + 1))) ∨
    (∃ i, code[p]? = some i ∧ padded[q]? = some i ∧
      Padding d (code.drop (p + 1)) (padded.drop (q + 1))) := by
  have hhead : ∀ (is : List Instruction) (n : Nat), is[n]? = (is.drop n).head? :=
    fun is n => List.head?_drop.symm
  have htail : ∀ (is : List Instruction) (n : Nat), is.drop (n + 1) = (is.drop n).tail :=
    fun is n => List.tail_drop.symm
  rw [hhead, hhead, htail, htail]
  generalize code.drop p = is at h
  generalize padded.drop q = js at h
  cases h with
  | nil => exact .inl ⟨rfl, rfl⟩
  | idle h => exact .inr (.inl ⟨rfl, h⟩)
  | keep i h => exact .inr (.inr ⟨i, rfl, rfl, h⟩)

end Padding

namespace Machine

variable {d : String} {code padded : List Instruction} {s t : Machine}

/-! ### Two machines side by side -/

/-- The machines, of which `s` runs `code` and `t` runs `padded`, stand before the same rest of the
program, and their memories agree but for `d`. -/
structure Beside (d : String) (code padded : List Instruction) (s t : Machine) : Prop where
  memory : s.memory.AgreesBut [d] t.memory
  labels_left : s.labels = Labels.carried 0 code
  labels_right : t.labels = Labels.carried 0 padded
  rest : Padding d (code.drop s.pc) (padded.drop t.pc)

theorem Beside.count (h : Beside d code padded s t) : Beside d code padded s.count t.count :=
  ⟨h.memory.count_left.count_right, h.labels_left, h.labels_right, h.rest⟩

theorem alike_jump_padding (hp : Padding d code padded) (hd : (Labels.names code).Nodup)
    (h : Beside d code padded s t) (l : String) :
    (s.jump l).Alike (Beside d code padded) (t.jump l) := by
  cases hl : s.labels.lookup l with
  | some p =>
      obtain ⟨q, hq, hrest⟩ := hp.lookup_carried hd (h.labels_left ▸ hl)
      rw [jump_of_lookup hl, jump_of_lookup (h.labels_right ▸ hq)]
      exact .going ⟨h.memory, h.labels_left, h.labels_right, hrest⟩
  | none =>
      have hr : t.labels.lookup l = none :=
        h.labels_right ▸ hp.lookup_carried_eq_none (h.labels_left ▸ hl)
      rw [jump, jump, hl, hr]
      exact .failed h

theorem alike_execute_padding (hp : Padding d code padded) (hd : (Labels.names code).Nodup)
    (h : Beside d code padded s t) {st : Stmt} (hst : Executable st) (hnames : d ∉ st.names)
    (hrest : Padding d (code.drop (s.pc + 1)) (padded.drop (t.pc + 1))) :
    (s.execute st).Alike (Beside d code padded) (t.execute st) := by
  have hhidden : ∀ {x}, x ∈ st.names → x ∉ [d] :=
    fun hx hmem => hnames (List.mem_singleton.mp hmem ▸ hx)
  obtain ⟨_, hst⟩ := hst
  cases hst with
  | @assign x e _ =>
      have hx : x ∉ [d] := hhidden (by rw [Stmt.names]; exact List.mem_cons_self)
      have he : ∀ y ∈ e.names, y ∉ [d] :=
        fun y hy => hhidden (by rw [Stmt.names]; exact List.mem_cons_of_mem _ hy)
      rw [execute, execute, h.memory.eval_eq he]
      cases e.eval t.memory.store with
      | ok n => exact .going ⟨h.memory.assign hx n, h.labels_left, h.labels_right, hrest⟩
      | error err => exact .failed h
  | goto _ => exact alike_jump_padding hp hd h _
  | @ifGoto c l _ _ =>
      have hc : ∀ y ∈ c.names, y ∉ [d] := fun y hy => hhidden (by rw [Stmt.names]; exact hy)
      rw [execute, execute, h.memory.test_eq hc]
      cases c.eval t.memory.store with
      | ok b =>
          cases b with
          | true => exact alike_jump_padding hp hd h l
          | false => exact .going ⟨h.memory, h.labels_left, h.labels_right, hrest⟩
      | error err => exact .failed h
  | halt => exact .halted h

/-! ### Runs -/

theorem run_of_getElem?_eq_none {left : Nat} (h : code[s.pc]? = none) :
    run code left s = .returned s := by
  cases left with
  | zero => rw [run, if_neg (Nat.not_lt.mpr (List.getElem?_eq_none_iff.mp h))]
  | succ left => rw [run, h]

theorem run_zero_of_getElem? {i : Instruction} (h : code[s.pc]? = some i) :
    run code 0 s = .raised .stepLimit s.count := by
  rw [run, if_pos (List.getElem?_eq_some_iff.mp h).1]

/-- Either the limit stops the run with idle instructions, or the run without them, to which no
fewer steps are allowed, ends alike. -/
theorem alike_run_padding (hp : Padding d code padded) (hd : (Labels.names code).Nodup)
    (hcode : ∀ i ∈ code, Executable i.statement ∧ d ∉ i.statement.names) {left left' : Nat}
    (hle : left' ≤ left) (h : Beside d code padded s t) :
    (run padded left' t).error? = some .stepLimit ∨
      (run code left s).Alike (Beside d code padded) (run padded left' t) := by
  induction left' generalizing left s t with
  | zero =>
      rcases h.rest.cases_getElem? with ⟨hs, ht⟩ | ⟨ht, _⟩ | ⟨i, _, ht, _⟩
      · rw [run_of_getElem?_eq_none hs, run_of_getElem?_eq_none ht]
        exact .inr ⟨rfl, h⟩
      · rw [run_zero_of_getElem? ht]
        exact .inl rfl
      · rw [run_zero_of_getElem? ht]
        exact .inl rfl
  | succ left' ih =>
      rcases h.rest.cases_getElem? with ⟨hs, ht⟩ | ⟨ht, hrest⟩ | ⟨i, hs, ht, hrest⟩
      · rw [run_of_getElem?_eq_none hs, run_of_getElem?_eq_none ht]
        exact .inr ⟨rfl, h⟩
      · -- The machine on the left waits while the other one executes the idle instruction.
        have hidle : t.count.execute (.assign d (.num 0)) =
            .going { t.count with memory := t.count.memory.assign d 0, pc := t.pc + 1 } := rfl
        have hmemory : s.memory.AgreesBut [d] (t.count.memory.assign d 0) :=
          h.memory.count_right.assign_hidden List.mem_cons_self 0
        simp only [run, ht, hidle]
        exact ih (Nat.le_of_succ_le hle) ⟨hmemory, h.labels_left, h.labels_right, hrest⟩
      · obtain ⟨left, rfl⟩ : ∃ l, left = l + 1 := ⟨left - 1, by omega⟩
        obtain ⟨hexec, hnames⟩ := hcode i (List.mem_of_getElem? hs)
        have hstep := alike_execute_padding hp hd h.count hexec hnames hrest
        simp only [run, hs, ht]
        generalize s.count.execute i.statement = a at hstep
        generalize t.count.execute i.statement = b at hstep
        cases hstep with
        | going hst => exact ih (Nat.le_of_succ_le_succ hle) hst
        | halted hst => exact .inr ⟨rfl, hst⟩
        | failed hst => exact .inr ⟨rfl, hst⟩

/-- The same of whole programs.  Where a label is repeated, numbering the labels fails alike. -/
theorem alike_start_padding (hp : Padding d code padded)
    (hcode : ∀ i ∈ code, Executable i.statement ∧ d ∉ i.statement.names)
    (h : s.memory.AgreesBut [d] t.memory) (hsteps : s.memory.steps = t.memory.steps) :
    (start padded t).error? = some .stepLimit ∨
      (start code s).Alike (fun s t => s.memory.AgreesBut [d] t.memory) (start padded t) := by
  by_cases hd : (Labels.names code).Nodup
  · have hd' : (Labels.names padded).Nodup := hp.names_eq ▸ hd
    have hbeside : Beside d code padded { s with labels := Labels.carried 0 code, pc := 0 }
        { t with labels := Labels.carried 0 padded, pc := 0 } := ⟨h, rfl, rfl, hp⟩
    rw [start_of_nodup hd, start_of_nodup hd', hsteps]
    exact (alike_run_padding hp hd hcode (Nat.le_refl _) hbeside).imp_right
      fun halike => ⟨halike.error?_eq, halike.state.memory⟩
  · obtain ⟨l, hl, htable⟩ := Labels.table_of_not_nodup hd
    obtain ⟨l', hl', htable'⟩ := Labels.table_of_not_nodup (hp.names_eq ▸ hd)
    obtain rfl : l = l' := hl.unique (hp.names_eq ▸ hl')
    obtain ⟨before, hbefore⟩ := htable 0
    obtain ⟨before', hbefore'⟩ := htable' 0
    rw [start, start, hbefore, hbefore']
    exact .inr ⟨rfl, h⟩

theorem alike_evaluate_padding (hp : Padding d code padded) (hcode : ∀ i ∈ code, i.WellFormed)
    (hnames : d ∉ (Program.goto code).names) {pairs : List (String × Nat)}
    (hinputs : d ∉ (Inputs.ofNaturals pairs).names) (s t : Machine) :
    (t.evaluate .goto (.goto padded) (.ofNaturals pairs)).error? = some .stepLimit ∨
      (s.evaluate .goto (.goto code) (.ofNaturals pairs)).Alike
        (fun s t => s.memory.AgreesBut [d] t.memory)
        (t.evaluate .goto (.goto padded) (.ofNaturals pairs)) := by
  obtain ⟨hm, hi⟩ := Inputs.bindAll_memory pairs
  have hhidden : ∀ x ∈ [d], x ∉ (Inputs.ofNaturals pairs).names := by
    intro x hx
    rwa [List.mem_singleton.mp hx]
  have hexec : ∀ i ∈ code, Executable i.statement := fun i hmem => (hcode i hmem).executable
  rw [evaluate_goto hm (Executable.absent?_eq_none hexec),
    evaluate_goto hm (Executable.absent?_eq_none (hp.executable hexec))]
  refine alike_start_padding hp (fun i hmem => ⟨hexec i hmem, fun hd => ?_⟩)
    (hi.agreesBut hhidden) rfl
  exact hnames (Program.mem_names_goto_iff.mpr ⟨i, hmem, hd⟩)

end Machine

namespace Program

/-- Idle instructions do no harm.  If the program with them returns, the one without them returns
the same values for all variables but `d`, which has none there; and if the one without them
returns, the one with them returns as well, unless it takes too many steps. -/
theorem evaluate_padding {text : String} {p : Program} (hparse : parse .goto text = .ok p)
    {d : String} (hnames : d ∉ p.names) {pairs : List (String × Nat)}
    (hinputs : d ∉ (Inputs.ofNaturals pairs).names) {padded : List Instruction}
    (hp : Padding d p.instructions padded) (s t : Machine) :
    (∀ t', t.evaluate .goto (.goto padded) (.ofNaturals pairs) = .returned t' →
      ∃ s', s.evaluate .goto p (.ofNaturals pairs) = .returned s' ∧
        s'.memory.store.IsWithout [d] t'.memory.store) ∧
    (∀ s', s.evaluate .goto p (.ofNaturals pairs) = .returned s' →
      (∃ t', t.evaluate .goto (.goto padded) (.ofNaturals pairs) = .returned t') ∨
        ∃ t', t.evaluate .goto (.goto padded) (.ofNaturals pairs) = .raised .stepLimit t') := by
  obtain ⟨code, rfl, hwell⟩ := wellFormed_of_parse_goto hparse
  have hp : Padding d code padded := hp
  have halike := Machine.alike_evaluate_padding hp hwell hnames hinputs s t
  refine ⟨fun t' ht => ?_, fun s' hs => ?_⟩
  · rw [ht] at halike
    obtain ⟨herror, hmemory⟩ := halike.resolve_left (Option.some_ne_none _).symm
    obtain ⟨s', hs⟩ := Outcome.exists_of_error?_eq_none herror
    rw [hs] at hmemory
    exact ⟨s', hs, hmemory.store⟩
  · rw [hs] at halike
    exact halike.symm.imp (fun h => Outcome.exists_of_error?_eq_none h.error?_eq.symm)
      fun hlimit => Outcome.exists_of_error?_eq_some hlimit

/-- A countdown with idle instructions before it, in its loop and behind it.  From two it returns;
from three hundred it takes too many steps, which the countdown alone does not. -/
theorem evaluate_padding_countdown :
    ∃ code padded : List Instruction,
      parse .goto "a: IF x = 0 GOTO b; x := x - 1; GOTO a; b: HALT;" = .ok (.goto code) ∧
      "d" ∉ (goto code).names ∧ Padding "d" code padded ∧ padded.length = code.length + 4 ∧
      "d" ∉ (Inputs.ofNaturals [("x", 2)]).names ∧ "d" ∉ (Inputs.ofNaturals [("x", 300)]).names ∧
      (∃ s' t',
        Machine.empty.evaluate .goto (.goto padded) (.ofNaturals [("x", 2)]) = .returned t' ∧
        Machine.empty.evaluate .goto (.goto code) (.ofNaturals [("x", 2)]) = .returned s' ∧
        s'.memory.store.IsWithout ["d"] t'.memory.store) ∧
      ∃ s' t',
        Machine.empty.evaluate .goto (.goto code) (.ofNaturals [("x", 300)]) = .returned s' ∧
        Machine.empty.evaluate .goto (.goto padded) (.ofNaturals [("x", 300)]) =
          .raised .stepLimit t' := by
  let idle : Instruction := ⟨.assign "d" (.num 0), none⟩
  let test : Instruction := ⟨.ifGoto ⟨.var "x", "=", .num 0⟩ "b", some "a"⟩
  let lower : Instruction := ⟨.assign "x" (.binary (.var "x") "-" (.num 1)), none⟩
  let again : Instruction := ⟨.goto "a", none⟩
  let stop : Instruction := ⟨.halt, some "b"⟩
  obtain ⟨p, hparse, h⟩ : ∃ p,
      parse .goto "a: IF x = 0 GOTO b; x := x - 1; GOTO a; b: HALT;" = .ok p ∧
      decide (p = .goto [test, lower, again, stop]) = true :=
    Except.exists_of_any (by decide +kernel)
  obtain rfl := of_decide_eq_true h
  have hp : Padding "d" [test, lower, again, stop]
      [idle, test, idle, lower, again, idle, stop, idle] :=
    .idle (.keep test (.idle (.keep lower (.keep again (.idle (.keep stop (.idle .nil)))))))
  have hnames : "d" ∉ (goto [test, lower, again, stop]).names := by decide
  have htwo : "d" ∉ (Inputs.ofNaturals [("x", 2)]).names := by decide
  have hmany : "d" ∉ (Inputs.ofNaturals [("x", 300)]).names := by decide
  refine ⟨_, _, hparse, hnames, hp, rfl, htwo, hmany, ?_, ?_⟩
  · obtain ⟨t', ht⟩ : ∃ t', Machine.empty.evaluate .goto
        (.goto [idle, test, idle, lower, again, idle, stop, idle]) (.ofNaturals [("x", 2)]) =
          .returned t' :=
      Outcome.exists_of_error?_eq_none (by decide +kernel)
    obtain ⟨s', hs, hstore⟩ := (evaluate_padding hparse hnames htwo hp .empty .empty).1 t' ht
    exact ⟨s', t', ht, hs, hstore⟩
  · obtain ⟨s', hs⟩ : ∃ s', Machine.empty.evaluate .goto (.goto [test, lower, again, stop])
        (.ofNaturals [("x", 300)]) = .returned s' :=
      Outcome.exists_of_error?_eq_none (by decide +kernel)
    have hnot : ¬ ∃ t', Machine.empty.evaluate .goto
        (.goto [idle, test, idle, lower, again, idle, stop, idle]) (.ofNaturals [("x", 300)]) =
          .returned t' := by
      rintro ⟨t', ht⟩
      have hlimit : (Machine.empty.evaluate .goto
          (.goto [idle, test, idle, lower, again, idle, stop, idle])
          (.ofNaturals [("x", 300)])).error? = some .stepLimit := by decide +kernel
      rw [ht] at hlimit
      cases hlimit
    obtain ⟨t', ht⟩ :=
      ((evaluate_padding hparse hnames hmany hp .empty .empty).2 s' hs).resolve_left hnot
    exact ⟨s', t', hs, ht⟩

end Program

end CounterPrograms
