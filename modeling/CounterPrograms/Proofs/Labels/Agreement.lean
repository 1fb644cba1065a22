import CounterPrograms.Proofs.Compile.GotoToWhile
import CounterPrograms.Proofs.Labels.Checks
import CounterPrograms.Proofs.Program.Proper

/-!
# The checks of labels agree

Labels are looked at three times: when a program is checked, when it is compiled and when it is run.
A program compiles iff the check finds nothing wrong, and such a program never fails at a label.  If
a label is repeated, the compilation and the run stop at the same one, the run before its first step;
if only targets are missing, the compilation stops at the first jump without one
(`Program.label_checks_agree`).
-/

namespace CounterPrograms

/-! ### Compiling jumps -/

namespace GotoToWhile

open Machine

section layout

variable {l : Layout} {st : Stmt} {is : List Instruction}

theorem exists_effect (hst : Executable st)
    (htarget : ∀ x, st.jumpTarget? = some x → l.positions.lookup x ≠ none) (position : Nat) :
    ∃ effect, l.effect position st = .ok effect := by
  obtain ⟨_, hclosed⟩ := hst
  have hfound : ∀ x, st.jumpTarget? = some x → ∃ k, l.target x = .ok k := by
    intro x hx
    obtain ⟨k, hk⟩ := Option.ne_none_iff_exists'.mp (htarget x hx)
    exact ⟨k, by rw [Layout.target, hk]⟩
  cases hclosed with
  | assign he =>
      rw [Layout.effect, he.admitted]
      exact ⟨_, rfl⟩
  | goto _ =>
      obtain ⟨k, hk⟩ := hfound _ rfl
      rw [Layout.effect, hk]
      exact ⟨_, rfl⟩
  | ifGoto hc _ =>
      obtain ⟨k, hk⟩ := hfound _ rfl
      rw [Layout.effect, hc.admitted, hk]
      exact ⟨_, rfl⟩
  | halt => exact ⟨_, rfl⟩

theorem effect_of_missing (hst : Executable st) {x : String} (hx : st.jumpTarget? = some x)
    (hnone : l.positions.lookup x = none) (position : Nat) :
    l.effect position st = .error (.unknownLabel x) := by
  have hmissing : l.target x = .error (.unknownLabel x) := by rw [Layout.target, hnone]
  obtain ⟨_, hclosed⟩ := hst
  cases hclosed with
  | assign _ | halt => cases hx
  | goto _ =>
      obtain rfl := Option.some.inj hx
      rw [Layout.effect, hmissing]
      rfl
  | ifGoto hc _ =>
      obtain rfl := Option.some.inj hx
      rw [Layout.effect, hc.admitted, hmissing]
      rfl

theorem exists_cases (his : ∀ i ∈ is, Executable i.statement)
    (htargets : ∀ x ∈ Labels.targets is, l.positions.lookup x ≠ none) (position : Nat) :
    ∃ body, l.cases position is = .ok body := by
  induction is generalizing position with
  | nil => exact ⟨[], rfl⟩
  | cons i is ih =>
      obtain ⟨hi, hrest⟩ := List.forall_mem_cons.mp his
      rw [Labels.targets_cons, List.forall_mem_append] at htargets
      have htarget : ∀ x, i.statement.jumpTarget? = some x → l.positions.lookup x ≠ none :=
        fun x hx => htargets.1 x (Option.mem_toList.mpr hx)
      obtain ⟨effect, heffect⟩ := exists_effect hi htarget position
      obtain ⟨body, hbody⟩ := ih hrest htargets.2 (position + 1)
      rw [Layout.cases, heffect, hbody]
      exact ⟨_, rfl⟩

/-- The cases stop at the first jump to a label without a position. -/
theorem cases_of_missing (his : ∀ i ∈ is, Executable i.statement) {x : String}
    (hx : (Labels.targets is).find? (fun x => l.positions.lookup x = none) = some x)
    (position : Nat) : l.cases position is = .error (.unknownLabel x) := by
  induction is generalizing position with
  | nil => cases hx
  | cons i is ih =>
      obtain ⟨hi, hrest⟩ := List.forall_mem_cons.mp his
      rw [Labels.targets_cons, List.find?_append] at hx
      by_cases hhere : ∃ k, i.statement.jumpTarget? = some k ∧ l.positions.lookup k = none
      · obtain ⟨k, hk, hnone⟩ := hhere
        obtain rfl : k = x := by simpa [hk, hnone] using hx
        rw [Layout.cases, effect_of_missing hi hk hnone]
        rfl
      · have hhere' : ∀ k, i.statement.jumpTarget? = some k → l.positions.lookup k ≠ none :=
          fun k hk hnone => hhere ⟨k, hk, hnone⟩
        obtain ⟨effect, heffect⟩ := exists_effect hi hhere' position
        have hlater : (i.statement.jumpTarget?.toList).find?
            (fun x => l.positions.lookup x = none) = none := by
          rw [List.find?_eq_none]
          intro k hk
          simpa using hhere' k (Option.mem_toList.mp hk)
        rw [hlater, Option.none_or] at hx
        rw [Layout.cases, heffect, ih hrest hx (position + 1)]
        rfl

end layout

variable {is : List Instruction} {reserved : List String}

theorem gotoToWhile_of_nodup (hr : Names.Indexable ((Program.goto is).names ++ reserved))
    (hn : (Labels.names is).Nodup) (hne : is ≠ []) :
    ∃ c, (Program.goto is).gotoToWhile reserved =
      ((layout c is).simulation is).map Program.whileDo := by
  obtain ⟨f, hf, hlt⟩ := Fresh.above_of_indexable hr
  refine ⟨Fresh.variableName f.nextVariable, ?_⟩
  have hempty : is.isEmpty = false := List.isEmpty_eq_false_iff.mpr hne
  have htable : Labels.table 1 is = .ok (Labels.carried 1 is) :=
    Labels.table_eq_ok_iff.mpr ⟨rfl, hn⟩
  unfold Program.gotoToWhile attempt
  simp only [hf, Program.instructions, htable, hempty, Fresh.newVariable_of_lt hlt]
  rfl

/-- A program in whose labels nothing is wrong compiles. -/
theorem exists_gotoToWhile (his : ∀ i ∈ is, Executable i.statement)
    (hr : Names.Indexable ((Program.goto is).names ++ reserved)) (h : Labels.problems is = []) :
    ∃ q, (Program.goto is).gotoToWhile reserved = .ok q := by
  obtain ⟨hn, htargets⟩ := Labels.problems_eq_nil_iff.mp h
  by_cases hne : is = []
  · subst hne
    obtain ⟨f, hf, _⟩ := Fresh.above_of_indexable hr
    refine ⟨.whileDo [], ?_⟩
    unfold Program.gotoToWhile attempt
    rw [hf]
    rfl
  · obtain ⟨c, hc⟩ := gotoToWhile_of_nodup hr hn hne
    have hfound : ∀ x ∈ Labels.targets is, (layout c is).positions.lookup x ≠ none :=
      fun x hx hnone => Labels.lookup_carried_eq_none_iff.mp hnone (htargets x hx)
    obtain ⟨body, hbody⟩ := exists_cases his hfound 1
    rw [hc, Layout.simulation, hbody]
    exact ⟨_, rfl⟩

theorem gotoToWhile_of_table_error (hr : Names.Indexable ((Program.goto is).names ++ reserved))
    {l : String} {before : List (String × Nat)} (h : Labels.table 1 is = .error ⟨l, before⟩) :
    (Program.goto is).gotoToWhile reserved = .error (.duplicateLabel l) := by
  obtain ⟨f, hf, _⟩ := Fresh.above_of_indexable hr
  unfold Program.gotoToWhile attempt
  simp only [hf, Program.instructions, h]

/-- If no label is repeated, the compilation stops at the first jump without a target. -/
theorem gotoToWhile_of_missing (his : ∀ i ∈ is, Executable i.statement)
    (hr : Names.Indexable ((Program.goto is).names ++ reserved)) (hn : (Labels.names is).Nodup)
    {x : String} (hx : (Labels.targets is).find? (· ∉ Labels.names is) = some x) :
    (Program.goto is).gotoToWhile reserved = .error (.unknownLabel x) := by
  have hne : is ≠ [] := by
    rintro rfl
    cases hx
  obtain ⟨c, hc⟩ := gotoToWhile_of_nodup hr hn hne
  have hmissing : (Labels.targets is).find?
      (fun x => (layout c is).positions.lookup x = none) = some x := by
    simp only [layout, Labels.lookup_carried_eq_none_iff]
    exact hx
  rw [hc, Layout.simulation, cases_of_missing his hmissing 1]
  rfl

end GotoToWhile

/-! ### Running jumps -/

/-- A program in whose labels nothing is wrong is stopped by its limit only. -/
theorem Machine.eq_stepLimit_of_start {is : List Instruction}
    (his : ∀ i ∈ is, Executable i.statement) (h : Labels.problems is = []) {s t : Machine}
    {e : RunError} (hs : start is s = .raised e t) : e = .stepLimit := by
  obtain ⟨hn, htargets⟩ := Labels.problems_eq_nil_iff.mp h
  rw [start_of_nodup hn] at hs
  refine eq_stepLimit_of_run (fun i hi => closed_iff.mpr ⟨his i hi, fun l hl => ?_⟩) hs
  rw [Labels.map_fst_carried]
  exact htargets l (List.mem_filterMap.mpr ⟨i, hi, hl⟩)

/-! ### All three -/

namespace Program

/-- The three checks of labels agree.  A program that was read compiles iff the check finds nothing
wrong with its labels, and then no run of it fails at a label.  If a label is repeated, the
compilation and every run stop at the same one, and the run has done nothing yet.  If no label is
repeated but some jump has no target, the compilation stops at the first such jump. -/
theorem label_checks_agree {text : String} {p : Program} (hp : parse .goto text = .ok p)
    {reserved : List String} (hr : Names.Indexable (p.names ++ reserved)) :
    (Labels.problems p.instructions = [] ↔ ∃ q, p.gotoToWhile reserved = .ok q) ∧
    (Labels.problems p.instructions = [] → ∀ pairs (s t : Machine) e,
      s.evaluate .goto p (.ofNaturals pairs) = .raised e t →
        ∀ l, e ≠ .duplicateLabel l ∧ e ≠ .undefinedLabel l) ∧
    (¬ (Labels.names p.instructions).Nodup → ∃ l,
      p.gotoToWhile reserved = .error (.duplicateLabel l) ∧
      ∀ pairs (s : Machine), ∃ t,
        s.evaluate .goto p (.ofNaturals pairs) = .raised (.duplicateLabel l) t ∧
        t.memory.steps = 0 ∧ t.memory.store.Holds (.ofNaturals pairs)) ∧
    ((Labels.names p.instructions).Nodup →
      (∃ l ∈ Labels.targets p.instructions, l ∉ Labels.names p.instructions) → ∃ l,
        (Labels.targets p.instructions).find? (· ∉ Labels.names p.instructions) = some l ∧
        p.gotoToWhile reserved = .error (.unknownLabel l)) := by
  obtain ⟨is, rfl, hwell⟩ := wellFormed_of_parse_goto hp
  have his : ∀ i ∈ is, Machine.Executable i.statement := fun i hi => (hwell i hi).executable
  have hpresent : (Program.goto is).absent? = none := Machine.Executable.absent?_eq_none his
  have hrepeated : ¬ (Labels.names is).Nodup → ∃ l,
      (Program.goto is).gotoToWhile reserved = .error (.duplicateLabel l) ∧
      ∀ pairs (s : Machine), ∃ t,
        s.evaluate .goto (.goto is) (.ofNaturals pairs) = .raised (.duplicateLabel l) t ∧
        t.memory.steps = 0 ∧ t.memory.store.Holds (.ofNaturals pairs) := by
    intro hn
    obtain ⟨l, _, htable⟩ := Labels.table_of_not_nodup hn
    -- The compilation numbers the labels from one and the run from zero, with the same end.
    obtain ⟨_, hone⟩ := htable 1
    obtain ⟨before, hzero⟩ := htable 0
    refine ⟨l, GotoToWhile.gotoToWhile_of_table_error hr hone, fun pairs s => ?_⟩
    obtain ⟨hm, hinit⟩ := Inputs.bindAll_memory pairs
    refine ⟨⟨(Inputs.ofNaturals pairs).memory, before, s.pc⟩, ?_, hinit.steps,
      Inputs.holds_memory pairs⟩
    rw [Machine.evaluate_goto hm hpresent, Machine.start, hzero]
  have hmissing : (Labels.names is).Nodup → (∃ l ∈ Labels.targets is, l ∉ Labels.names is) →
      ∃ l, (Labels.targets is).find? (· ∉ Labels.names is) = some l ∧
        (Program.goto is).gotoToWhile reserved = .error (.unknownLabel l) := by
    rintro hn ⟨k, hk, hout⟩
    have hsome : ((Labels.targets is).find? (· ∉ Labels.names is)).isSome = true :=
      List.find?_isSome.mpr ⟨k, hk, decide_eq_true hout⟩
    obtain ⟨l, hl⟩ := Option.isSome_iff_exists.mp hsome
    exact ⟨l, hl, GotoToWhile.gotoToWhile_of_missing his hr hn hl⟩
  refine ⟨⟨GotoToWhile.exists_gotoToWhile his hr, ?_⟩, ?_, hrepeated, hmissing⟩
  · rintro ⟨q, hq⟩
    rw [instructions, Labels.problems_eq_nil_iff]
    have hn : (Labels.names is).Nodup := by
      by_contra hn
      obtain ⟨l, herror, _⟩ := hrepeated hn
      cases hq.symm.trans herror
    refine ⟨hn, fun k hk => ?_⟩
    by_contra hout
    obtain ⟨l, _, herror⟩ := hmissing hn ⟨k, hk, hout⟩
    cases hq.symm.trans herror
  · intro hnone pairs s t e hs l
    rw [Machine.evaluate_goto (Inputs.bindAll_memory pairs).1 hpresent] at hs
    obtain rfl := Machine.eq_stepLimit_of_start his hnone hs
    exact ⟨RunError.noConfusion, RunError.noConfusion⟩

/-- A program with nothing wrong in its labels, one with a repeated label and a jump that has no
target, and one with two such jumps. -/
theorem label_checks_agree_threefold :
    (∃ p q, parse .goto "a: x1 := x1 + 1; IF x1 < 3 THEN GOTO a; HALT;" = .ok p ∧
      p.gotoToWhile ["x7"] = .ok q) ∧
    (∃ p l, parse .goto "a: x1 := x1 + 1; a: GOTO b;" = .ok p ∧
      p.gotoToWhile ["x7"] = .error (.duplicateLabel l) ∧
      ∃ t, Machine.empty.evaluate .goto p (.ofNaturals [("x1", 2)]) =
        .raised (.duplicateLabel l) t ∧ t.memory.steps = 0) ∧
    ∃ p, parse .goto "a: IF x1 = 0 THEN GOTO b; GOTO c;" = .ok p ∧
      p.gotoToWhile ["x7"] = .error (.unknownLabel "b") := by
  refine ⟨?_, ?_, ?_⟩
  · obtain ⟨p, hp, h⟩ : ∃ p,
        parse .goto "a: x1 := x1 + 1; IF x1 < 3 THEN GOTO a; HALT;" = .ok p ∧
        (decide (Names.Indexable (p.names ++ ["x7"])) &&
          decide (Labels.problems p.instructions = [])) = true :=
      Except.exists_of_any (by decide +kernel)
    simp only [Bool.and_eq_true, decide_eq_true_eq] at h
    obtain ⟨q, hq⟩ := (label_checks_agree hp h.1).1.mp h.2
    exact ⟨p, q, hp, hq⟩
  · obtain ⟨p, hp, h⟩ : ∃ p, parse .goto "a: x1 := x1 + 1; a: GOTO b;" = .ok p ∧
        (decide (Names.Indexable (p.names ++ ["x7"])) &&
          decide (¬ (Labels.names p.instructions).Nodup)) = true :=
      Except.exists_of_any (by decide +kernel)
    simp only [Bool.and_eq_true, decide_eq_true_eq] at h
    obtain ⟨l, hl, hrun⟩ := (label_checks_agree hp h.1).2.2.1 h.2
    obtain ⟨t, ht, hsteps, _⟩ := hrun [("x1", 2)] .empty
    exact ⟨p, l, hp, hl, t, ht, hsteps⟩
  · obtain ⟨p, hp, h⟩ : ∃ p, parse .goto "a: IF x1 = 0 THEN GOTO b; GOTO c;" = .ok p ∧
        (decide (Names.Indexable (p.names ++ ["x7"])) &&
          (decide (Labels.names p.instructions).Nodup &&
            decide (Labels.targets p.instructions = ["b", "c"] ∧
              Labels.names p.instructions = ["a"]))) = true :=
      Except.exists_of_any (by decide +kernel)
    simp only [Bool.and_eq_true, decide_eq_true_eq] at h
    obtain ⟨hr, hn, htargets, hnames⟩ := h
    have hmissing := (label_checks_agree hp hr).2.2.2 hn
    rw [htargets, hnames] at hmissing
    obtain ⟨l, hfirst, hl⟩ := hmissing ⟨"b", by decide, by decide⟩
    obtain rfl : "b" = l := Option.some.inj hfirst
    exact ⟨p, hp, hl⟩

end Program

end CounterPrograms
