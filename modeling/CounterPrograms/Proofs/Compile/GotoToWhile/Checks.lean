import CounterPrograms.Proofs.Compile.Sound
import CounterPrograms.Proofs.Run.While.Limit

/-!
# How often a simulation checks its condition

`GotoToWhile.Matches c is s μ` says that a simulation with the memory `μ` stands where the machine
stands with `s`, at one of the instructions `is`.  From there a pass through the cases comes to its
end: if the machine does not halt, it stands at an instruction again when the pass is over
(`GotoToWhile.exists_pass`).  So the loop ends only if the machine halts
(`GotoToWhile.not_exec_of_not_halts`).

Together with the count for halting runs this tells the number of checks exactly: it is two more
than the number of moves of the machine that do not lead forward, however many instructions are
executed between them, and the interpreter raises `stepLimit` iff there are too many of these or the
machine never halts (`Program.checks_gotoToWhile`).
-/

namespace CounterPrograms

namespace GotoToWhile

open Machine

variable {c : String} {is : List Instruction} {body : List Stmt}

/-! ### Instructions that were compiled -/

theorem Dispatches.mem_labels (hd : Dispatches c is body) {i : Instruction} (hi : i ∈ is)
    {l : String} (hl : i.statement.jumpTarget? = some l) : l ∈ Labels.names is := by
  obtain ⟨j, hj⟩ := List.mem_iff_getElem?.mp hi
  obtain ⟨effect, heff, _⟩ := hd.get j i hj
  have htarget : ∃ k, (layout c is).target l = .ok k := by
    cases hst : i.statement with
    | goto k =>
        rw [hst] at hl heff
        obtain rfl := Option.some.inj hl
        obtain ⟨t, ht, _⟩ := Except.bind_eq_ok_iff.mp heff
        exact ⟨t, ht⟩
    | ifGoto d k =>
        rw [hst] at hl heff
        obtain rfl := Option.some.inj hl
        obtain ⟨_, _, heff⟩ := Except.bind_eq_ok_iff.mp heff
        obtain ⟨t, ht, _⟩ := Except.bind_eq_ok_iff.mp heff
        exact ⟨t, ht⟩
    | assign | halt | loop | whileDo | ifThen | foreign =>
        rw [hst] at hl
        cases hl
  obtain ⟨k, hk⟩ := htarget
  by_contra hout
  have hnone : (layout c is).positions.lookup l = none := Labels.lookup_carried_eq_none_iff.mpr hout
  rw [Layout.target, hnone] at hk
  cases hk

theorem Dispatches.closed (hd : Dispatches c is body) (his : ∀ i ∈ is, Executable i.statement) :
    ∀ i ∈ is, Closed (Labels.names is) i.statement :=
  fun i hi => closed_iff.mpr ⟨his i hi, fun _ hl => hd.mem_labels hi hl⟩

/-! ### Passes of a machine that does not halt -/

/-- A simulation stands, with the memory `μ`, where the machine `s` stands, at an instruction. -/
structure Matches (c : String) (is : List Instruction) (s : Machine) (μ : Memory) : Prop where
  labels : s.labels = Labels.carried 0 is
  pc_lt : s.pc < is.length
  agrees : s.memory.AgreesBut [c] μ
  counter : μ.store.get? c = some (counterAt is s.pc)

theorem Matches.count {s : Machine} {μ : Memory} (h : Matches c is s μ) : Matches c is s μ.count :=
  ⟨h.labels, h.pc_lt, h.agrees.count_right, h.counter⟩

/-- The condition of the loop holds at every instruction. -/
theorem Matches.eval_running {s : Machine} {μ : Memory} (h : Matches c is s μ) :
    (⟨.var c, Comparison.ne.symbol, .num 0⟩ : Condition).eval μ.store = .ok true := by
  have hne : counterAt is s.pc ≠ 0 := by
    rw [counterAt, if_pos h.pc_lt]
    omega
  rw [GotoToWhile.eval_running h.counter, decide_eq_true hne]

/-- If the machine does not halt, a pass, begun at any case that is not behind the position of the
machine, comes to its end, and the machine stands at an instruction then and does not halt from
there. -/
theorem exists_pass (hd : Dispatches c is body) (hn : ∀ x ∈ (Program.goto is).names, x ∉ [c])
    (his : ∀ i ∈ is, Closed (Labels.names is) i.statement) {s : Machine} {μ : Memory}
    (hs : Matches c is s μ) (hnot : ∀ path u, ¬ Halts is path s u) {j : Nat} (hj : j ≤ s.pc) :
    ∃ t μ', While.Exec (body.drop j) 0 μ μ' ∧ Matches c is t μ' ∧ ∀ path u, ¬ Halts is path t u := by
  -- Every forward move leaves fewer cases to the pass.
  induction hleft : is.length - s.pc using Nat.strongRecOn generalizing s μ j with
  | ind left ih =>
      obtain ⟨i, hi⟩ : ∃ i, is[s.pc]? = some i := ⟨_, List.getElem?_eq_getElem hs.pc_lt⟩
      have hmem := List.mem_of_getElem? hi
      obtain ⟨effect, heff, _⟩ := hd.get _ _ hi
      cases he : s.count.execute i.statement with
      | halted t => exact absurd (.halt hi he) (hnot [s.pc] t)
      | failed e t =>
          have hlabels : s.count.labels.map Prod.fst = Labels.names is := by
            show s.labels.map Prod.fst = _
            rw [hs.labels, Labels.map_fst_carried]
          have hclosed : Closed (s.count.labels.map Prod.fst) i.statement := by
            rw [hlabels]
            exact his i hmem
          exact absurd he (hclosed.execute_ne_failed e)
      | going t =>
          have hni : ∀ x ∈ i.statement.names, x ∉ [c] := fun x hx =>
            hn x (Program.mem_names_goto_iff.mpr ⟨i, hmem, hx⟩)
          have hnot' : ∀ path u, ¬ Halts is path t u := fun path u h =>
            hnot (s.pc :: path) u (.step hi he h)
          have hlt : t.pc < is.length := by
            by_contra hge
            exact hnot' [] t (.behind (List.getElem?_eq_none (Nat.le_of_not_lt hge)))
          obtain ⟨μ', hex, ha', hc'⟩ := exec_of_going hni hs.labels heff he hs.agrees
          have ht : Matches c is t μ' :=
            ⟨(labels_of_execute (s := s.count) he).trans hs.labels, hlt, ha', hc'⟩
          by_cases hle : t.pc ≤ s.pc
          · have hrest : While.Exec (body.drop (s.pc + 1)) 0 μ' μ' := by
              rw [counterAt, if_pos hlt] at hc'
              exact hd.exec_rest hc' hs.pc_lt fun i hi => by omega
            exact ⟨t, μ', hd.pass hi heff hs.counter hj hex hrest, ht, hnot'⟩
          · obtain ⟨u, μ₁, hrest, hu, hnot₁⟩ :=
              ih (is.length - t.pc) (by omega) ht hnot' (j := s.pc + 1) (by omega) rfl
            exact ⟨u, μ₁, hd.pass hi heff hs.counter hj hex hrest, hu, hnot₁⟩

/-- If the machine does not halt, the loop does not end. -/
theorem not_exec_of_not_halts (hd : Dispatches c is body)
    (hn : ∀ x ∈ (Program.goto is).names, x ∉ [c])
    (his : ∀ i ∈ is, Closed (Labels.names is) i.statement) {s : Machine} {μ : Memory}
    (hs : Matches c is s μ) (hnot : ∀ path u, ¬ Halts is path s u) (k : Nat) (μ' : Memory) :
    ¬ While.Exec [dispatchLoop c body] k μ μ' := by
  intro h
  induction k using Nat.strongRecOn generalizing s μ with
  | ind k ih =>
      cases h with
      | whileFalse hc _ => cases hs.eval_running.symm.trans hc
      | whileTrue _ hpass hloop =>
          obtain ⟨t, μ₁, hpass', ht, hnot'⟩ := exists_pass hd hn his hs.count hnot (Nat.zero_le _)
          obtain ⟨_, rfl⟩ := hpass.deterministic hpass'
          exact ih _ (by omega) ht hnot' hloop

theorem not_exec_of_not_halts_compiled (hd : Dispatches c is body)
    (hn : ∀ x ∈ (Program.goto is).names, x ∉ [c])
    (his : ∀ i ∈ is, Executable i.statement) (hne : is ≠ []) {m μ : Memory}
    (ha : m.AgreesBut [c] μ)
    (hnot : ∀ path u, ¬ Halts is path ⟨m, Labels.carried 0 is, 0⟩ u) (k : Nat) (μ' : Memory) :
    ¬ While.Exec (simulationCode c is body) k μ μ' := by
  intro h
  have hpos : 0 < is.length := List.length_pos_iff.mpr hne
  obtain ⟨μ₁, hmove, ha₁, hc₁⟩ := exec_moveTo is ha 1
  have hat : counterAt is 0 = 1 := by
    rw [counterAt, if_pos hpos]
    rfl
  have hs : Matches c is ⟨m, Labels.carried 0 is, 0⟩ μ₁ :=
    ⟨rfl, hpos, ha₁, hc₁.trans (congrArg some hat.symm)⟩
  -- The simulation begins by setting its counter, and goes on with the loop.
  cases h with
  | assign he hloop =>
      cases hmove with
      | assign he' hnil =>
          cases hnil
          obtain rfl := Except.ok.inj (he.symm.trans he')
          exact not_exec_of_not_halts hd hn (hd.closed his) hs hnot k μ' hloop

end GotoToWhile

/-! ### Evaluations -/

namespace Program

/-- Begun with the given initial values and without a limit, the program halts, and the instructions
executed are those at the positions in `path`, one after the other. -/
def HaltsAlong (p : Program) (pairs : List (String × Nat)) (path : List Nat) : Prop :=
  ∃ t, Machine.Halts p.instructions path
    ⟨(Inputs.ofNaturals pairs).memory, Labels.carried 0 p.instructions, 0⟩ t

/-- How often the simulation of a GOTO program checks its condition.  If the program halts, it is
two times more than there are moves that do not lead forward: the compiled program returns with this
count, or the limit stops it if the count is above the limit.  If the program does not halt, the
limit stops the compiled one. -/
theorem checks_gotoToWhile {text : String} {p : Program} (hp : parse .goto text = .ok p)
    (hne : p.instructions ≠ []) {reserved : List String} {q : Program}
    (hq : p.gotoToWhile reserved = .ok q) {pairs : List (String × Nat)}
    (hnames : ∀ x ∈ (Inputs.ofNaturals pairs).names, x ∈ reserved ∨ x ∈ p.names) (s : Machine) :
    (∀ path, p.HaltsAlong pairs path →
      (Machine.backwardMoves path + 2 ≤ stepLimit →
        ∃ u, s.evaluate .whileDo q (.ofNaturals pairs) = .returned u ∧
          u.memory.steps = Machine.backwardMoves path + 2) ∧
      (stepLimit < Machine.backwardMoves path + 2 →
        ∃ u, s.evaluate .whileDo q (.ofNaturals pairs) = .raised .stepLimit u ∧
          u.memory.steps = stepLimit + 1)) ∧
    ((¬ ∃ path, p.HaltsAlong pairs path) →
      ∃ u, s.evaluate .whileDo q (.ofNaturals pairs) = .raised .stepLimit u ∧
        u.memory.steps = stepLimit + 1) := by
  obtain ⟨is, rfl, hwell⟩ := wellFormed_of_parse_goto hp
  have his : ∀ i ∈ is, Machine.Executable i.statement := fun i hi => (hwell i hi).executable
  have hne' : is ≠ [] := hne
  have hsound := GotoToWhile.sound_of_gotoToWhile (wellFormed_of_parse hp).sound hq
  obtain ⟨hm, hi⟩ := Inputs.bindAll_memory pairs
  unfold HaltsAlong
  generalize (Inputs.ofNaturals pairs).memory = m at hm hi ⊢
  obtain ⟨c, body, hd, rfl, _, _, hnew⟩ :=
    (GotoToWhile.cases_of_gotoToWhile hq).resolve_left fun h => hne' h.1
  have hown : ∀ x ∈ (Program.goto is).names, x ∉ [c] :=
    fun x hx hc => hnew x hc (List.mem_append_left _ hx)
  have ha := hi.agreesBut_of_new hnames hnew
  rw [Machine.evaluate_whileDo hm]
  refine ⟨fun path hhalts => ?_, fun hnot => ?_⟩
  · obtain ⟨t, ht⟩ := hhalts
    obtain ⟨μ', hex, _⟩ := GotoToWhile.exec_of_halts_compiled hd hown ht hne' rfl rfl ha
    refine ⟨fun hle => ⟨{ s with memory := μ' }, ?_, ?_⟩, fun hlt => ?_⟩
    · rw [While.runBlock_of_exec hex (by rw [hi.steps]; omega)]
      rfl
    · show μ'.steps = _
      rw [hex.steps_eq, hi.steps, Nat.zero_add]
    · obtain ⟨μ₁, hraised, hsteps⟩ := While.runBlock_of_exec_of_lt hex
        (by rw [hi.steps]; exact Nat.zero_le _) (by rw [hi.steps]; omega)
      exact ⟨{ s with memory := μ₁ }, by rw [hraised]; rfl, hsteps⟩
  · have hblock : While.Block (GotoToWhile.simulationCode c is body) := by
      cases hsound.proper with
      | whileDo hblock => exact hblock
    have hlimit : (While.runBlock (GotoToWhile.simulationCode c is body) m).WithinLimit :=
      While.withinLimit_runBlock hblock (by rw [hi.steps]; exact Nat.zero_le _)
    have hunreturned : ∀ μ, While.runBlock (GotoToWhile.simulationCode c is body) m ≠
        .returned μ := by
      intro μ hrun
      obtain ⟨k, hex⟩ := While.exec_of_runBlock hrun
      exact GotoToWhile.not_exec_of_not_halts_compiled hd hown his hne' ha
        (fun path u h => hnot ⟨path, u, h⟩) k μ hex
    obtain ⟨μ, hraised, hsteps⟩ := hlimit.exists_raised hunreturned
    exact ⟨{ s with memory := μ }, by rw [hraised]; rfl, hsteps⟩

/-- A jump to itself, and a loop of five instructions. -/
def cycling : Program :=
  .goto
    [⟨.ifGoto ⟨.var "w", Comparison.eq.symbol, .num 0⟩ "a", some "a"⟩,
      ⟨.assign "x" (.binary (.var "x") Arithmetic.add.symbol (.num 1)), none⟩,
      ⟨.assign "y" (.binary (.var "y") Arithmetic.add.symbol (.var "x")), none⟩,
      ⟨.assign "z" (.binary (.var "y") Arithmetic.sub.symbol (.var "x")), none⟩,
      ⟨.ifGoto ⟨.var "x", Comparison.lt.symbol, .num 201⟩ "a", none⟩,
      ⟨.halt, none⟩]

theorem not_haltsAlong_cycling (path : List Nat) : ¬ cycling.HaltsAlong [("x7", 5)] path := by
  rintro ⟨t, ht⟩
  cases ht with
  | behind hnone => cases hnone
  | halt hi he =>
      obtain rfl := Option.some.inj hi
      cases he
  | step hi he hrest =>
      have hi' := hi
      obtain rfl := Option.some.inj hi
      refine Machine.not_halts_of_stay hi' he ?_ hrest
      obtain rfl := Machine.Step.going.inj he
      rfl

/-- Going around a loop two hundred times is too long for the GOTO program, but not for its
simulation; a jump to itself is too long for both. -/
theorem checks_gotoToWhile_cycling :
    ∃ text q, parse .goto text = .ok cycling ∧ cycling.gotoToWhile ["x7"] = .ok q ∧
      (∃ path u, cycling.HaltsAlong [("w", 1)] path ∧ stepLimit < path.length ∧
        Machine.backwardMoves path = 200 ∧
        Machine.empty.evaluate .whileDo q (.ofNaturals [("w", 1)]) = .returned u ∧
        u.memory.steps = 202) ∧
      ∃ u, Machine.empty.evaluate .whileDo q (.ofNaturals [("x7", 5)]) = .raised .stepLimit u := by
  obtain ⟨p, hp, heq⟩ : ∃ p, parse .goto ("a: IF w = 0 THEN GOTO a; x := x + 1; y := y + x; " ++
      "z := y - x; IF x < 201 GOTO a; HALT;") = .ok p ∧ decide (p = cycling) = true :=
    Except.exists_of_any (by decide +kernel)
  obtain rfl := of_decide_eq_true heq
  obtain ⟨q, hq, hruns⟩ : ∃ q, cycling.gotoToWhile ["x7"] = .ok q ∧
      decide ((Machine.empty.evaluate .whileDo q (.ofNaturals [("w", 1)])).map
        (fun u => u.memory.steps) = .returned 202) = true :=
    Except.exists_of_any (by decide +kernel)
  obtain ⟨u, hu, hsteps⟩ := Outcome.map_eq_returned_iff.mp (of_decide_eq_true hruns)
  refine ⟨_, q, hp, hq, ?_, ?_⟩
  · obtain ⟨t, ht⟩ : ∃ t, Machine.run cycling.instructions 1100
        ⟨(Inputs.ofNaturals [("w", 1)]).memory, Labels.carried 0 cycling.instructions, 0⟩ =
          .returned t :=
      Outcome.exists_of_error?_eq_none (by decide +kernel)
    obtain ⟨path, hhalts, _⟩ := Machine.run_eq_returned_iff.mp ht
    obtain ⟨hwithin, hbeyond⟩ := (checks_gotoToWhile hp (by decide) hq (by decide) .empty).1 path
      ⟨t, hhalts⟩
    have hlong : stepLimit < path.length := by
      by_contra hshort
      have hreturned := Machine.run_eq_returned_iff.mpr ⟨path, hhalts, Nat.le_of_not_lt hshort⟩
      have hraised : (Machine.run cycling.instructions stepLimit
          ⟨(Inputs.ofNaturals [("w", 1)]).memory, Labels.carried 0 cycling.instructions, 0⟩).error? =
            some .stepLimit := by
        decide +kernel
      rw [hreturned] at hraised
      cases hraised
    have hle : Machine.backwardMoves path + 2 ≤ stepLimit := by
      by_contra hgt
      obtain ⟨_, hraised, _⟩ := hbeyond (Nat.lt_of_not_le hgt)
      cases hu.symm.trans hraised
    obtain ⟨u', hu', hsteps'⟩ := hwithin hle
    obtain rfl := Outcome.returned.inj (hu.symm.trans hu')
    exact ⟨path, u, ⟨t, hhalts⟩, hlong, by omega, hu, hsteps⟩
  · obtain ⟨u, hu, _⟩ := (checks_gotoToWhile hp (by decide) hq (by decide) .empty).2
      fun ⟨path, h⟩ => not_haltsAlong_cycling path h
    exact ⟨u, hu⟩

end Program

end CounterPrograms
