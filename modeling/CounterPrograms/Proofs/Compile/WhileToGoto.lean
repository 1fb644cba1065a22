import CounterPrograms.Proofs.Compile.WhileToGoto.Runs

/-!
# Evaluating compiled WHILE programs

A compiled program is an image and a `HALT`, so it halts iff the block runs to an end
(`WhileToGoto.exec_of_halts`, `WhileToGoto.halts_of_exec`), and then with the same values but for
the idle variable.  The interpreter returns only what the WHILE program returns, and stops it for no
other reason than the limit (`WhileToGoto.evaluate_whileToGoto`).
-/

namespace CounterPrograms

namespace WhileToGoto

open Machine

variable {hidden : List String} {n n' k : Nat} {ss : List Stmt} {is : List Instruction}
  {m m' μ : Memory}

theorem names_compiled (is : List Instruction) :
    Labels.names (is ++ [⟨.halt, none⟩]) = Labels.names is := by
  simp

theorem located_compiled (h : Image hidden n ss is n') :
    Located (is ++ [⟨.halt, none⟩]) (Labels.carried 0 (is ++ [⟨.halt, none⟩])) 0
      (is ++ [⟨.halt, none⟩]) := by
  apply located_self
  rw [names_compiled]
  exact h.nodup

/-- If a compiled program halts, its block runs to an end, and fewer conditions are checked than
instructions are executed. -/
theorem exec_of_halts (h : Image hidden n ss is n') (hn : ∀ x ∈ Stmt.namesOfBlock ss, x ∉ hidden)
    (ha : m.AgreesBut hidden μ) {path : List Nat} {t : Machine}
    (hr : Halts (is ++ [⟨.halt, none⟩]) path
      ⟨μ, Labels.carried 0 (is ++ [⟨.halt, none⟩]), 0⟩ t) :
    ∃ k m', While.Exec ss k m m' ∧ m'.AgreesBut hidden t.memory ∧ k < path.length := by
  have hloc := located_compiled h
  obtain ⟨k, m', μ', rest, hex, ha', hr', hle⟩ := h.reflects hn hloc.append_left ha hr
  obtain ⟨rfl, rfl⟩ := hr'.of_halt hloc.append_right.head
  exact ⟨k, m', hex, ha'.count_right, hle⟩

/-- If a block runs to an end, its compiled program halts. -/
theorem halts_of_exec (h : Image hidden n ss is n') (hn : ∀ x ∈ Stmt.namesOfBlock ss, x ∉ hidden)
    (ha : m.AgreesBut hidden μ) (hex : While.Exec ss k m m') :
    ∃ path t, Halts (is ++ [⟨.halt, none⟩]) path
      ⟨μ, Labels.carried 0 (is ++ [⟨.halt, none⟩]), 0⟩ t ∧ m'.AgreesBut hidden t.memory := by
  have hloc := located_compiled h
  obtain ⟨path, μ', hs, ha'⟩ := h.preserves hn hex hloc.append_left ha
  exact ⟨_, _, hs.halts (.halt_of_stands hloc.append_right.head), ha'.count_right⟩

theorem closed_compiled (h : Image hidden n ss is n') (hs : While.Block ss) :
    ∀ i ∈ is ++ [⟨.halt, none⟩],
      Closed ((Labels.carried 0 (is ++ [⟨.halt, none⟩])).map Prod.fst) i.statement := by
  rw [Labels.map_fst_carried, names_compiled, List.forall_mem_append]
  refine ⟨h.closed hs fun _ hl => hl, ?_⟩
  rw [List.forall_mem_singleton]
  exact .halt

end WhileToGoto

/-- WHILE programs keep their meaning as GOTO programs: what the compiled program returns the
program returns, but for the idle variable; no error but the limit stops the compiled program, and
the limit stops it whenever it stops the program.  The compiled program exists unless an index is
too long. -/
theorem WhileToGoto.evaluate_whileToGoto {ss : List Stmt} (hs : While.Block ss)
    {reserved : List String} {pairs : List (String × Nat)}
    (hnames : ∀ x ∈ (Inputs.ofNaturals pairs).names,
      x ∈ reserved ∨ x ∈ (Program.whileDo ss).names) (s₁ s₂ : Machine) :
    (∀ e, (Program.whileDo ss).whileToGoto reserved = .error e → e.IsNumeral) ∧
    ∀ q, (Program.whileDo ss).whileToGoto reserved = .ok q →
      (∀ t₂, s₂.evaluate .goto q (.ofNaturals pairs) = .returned t₂ →
        ∃ t₁, s₁.evaluate .whileDo (.whileDo ss) (.ofNaturals pairs) = .returned t₁ ∧
          t₁.memory.store.IsWithout (WhileToGoto.idleVariables ss reserved) t₂.memory.store) ∧
      (∀ e t₂, s₂.evaluate .goto q (.ofNaturals pairs) = .raised e t₂ → e = .stepLimit) ∧
      (∀ t₁, s₁.evaluate .whileDo (.whileDo ss) (.ofNaturals pairs) = .raised .stepLimit t₁ →
        ∃ t₂, s₂.evaluate .goto q (.ofNaturals pairs) = .raised .stepLimit t₂) := by
  refine ⟨fun e he => isNumeral_of_whileToGoto hs he, fun q hq => ?_⟩
  obtain ⟨m, hm, hi⟩ := Memory.bindAll_ofNaturals pairs
  obtain ⟨is, n', rfl, himage, hidle⟩ := image_of_whileToGoto hq
  have hown : ∀ x ∈ Stmt.namesOfBlock ss, x ∉ idleVariables ss reserved :=
    fun x hx hd => hidle x hd (List.mem_append_left _ hx)
  have ha := hi.agreesBut_of_new hnames hidle
  have hclosed := closed_compiled himage hs
  have hpresent : (Program.goto (is ++ [⟨.halt, none⟩])).absent? = none :=
    Machine.Executable.absent?_eq_none fun i hi => ⟨_, hclosed i hi⟩
  rw [Machine.evaluate_goto hm hpresent, Machine.evaluate_whileDo hm]
  have hreturned : ∀ t₂, Machine.start (is ++ [⟨.halt, none⟩])
        { s₂ with memory := m } = .returned t₂ →
      ∃ t₁, ((While.runBlock ss m).map fun m => { s₁ with memory := m }) = .returned t₁ ∧
        t₁.memory.store.IsWithout (idleVariables ss reserved) t₂.memory.store := by
    intro t₂ h₂
    obtain ⟨_, path, hr, hle⟩ := Machine.start_eq_returned_iff.mp h₂
    obtain ⟨k, m', hex, ha', hlt⟩ := exec_of_halts himage hown ha hr
    refine ⟨{ s₁ with memory := m' }, ?_, ha'.store⟩
    rw [While.runBlock_of_exec hex (by rw [hi.steps] at *; omega)]
    rfl
  have hraised : ∀ e t₂, Machine.start (is ++ [⟨.halt, none⟩])
        { s₂ with memory := m } = .raised e t₂ → e = .stepLimit := by
    intro e t₂ h₂
    rw [Machine.start_of_nodup] at h₂
    · exact Machine.eq_stepLimit_of_run hclosed h₂
    · exact (names_compiled is).symm ▸ himage.nodup
  refine ⟨hreturned, hraised, fun t₁ h₁ => ?_⟩
  cases h₂ : Machine.start (is ++ [⟨.halt, none⟩])
      { s₂ with memory := m } with
  | returned t₂ =>
      obtain ⟨t, ht, _⟩ := hreturned t₂ h₂
      cases ht.symm.trans h₁
  | raised e t₂ =>
      obtain rfl := hraised e t₂ h₂
      exact ⟨t₂, rfl⟩

/-- A loop with a case distinction whose second alternative begins with a loop, and another one
whose second alternative begins with an assignment. -/
def WhileToGoto.counting : List Stmt :=
  [.whileDo ⟨.var "a", Comparison.ne.symbol, .num 0⟩
    [.assign "a" (.binary (.var "a") Arithmetic.sub.symbol (.num 1)),
      .ifThen ⟨.var "a", Comparison.gt.symbol, .num 1⟩
        [.assign "y" (.binary (.var "y") Arithmetic.add.symbol (.var "a"))]
        (some [.whileDo ⟨.var "z", Comparison.lt.symbol, .var "b"⟩
          [.assign "z" (.binary (.var "z") Arithmetic.add.symbol (.num 2))]]),
      .ifThen ⟨.var "y", Comparison.ge.symbol, .num 2⟩ [] (some [.assign "b" (.num 3)])]]

/-- The first assignments to `a` and to `b` only take their locks away. -/
theorem WhileToGoto.evaluate_whileToGoto_counting :
    ∃ q t₁ t₂, (Program.whileDo counting).whileToGoto ["b"] = .ok q ∧
      Machine.empty.evaluate .goto q (.ofNaturals [("a", 3), ("b", 5)]) = .returned t₂ ∧
      Machine.empty.evaluate .whileDo (.whileDo counting) (.ofNaturals [("a", 3), ("b", 5)]) =
        .returned t₁ ∧
      t₁.memory.store.IsWithout (idleVariables counting ["b"]) t₂.memory.store := by
  have hs : While.Block counting :=
    .whileDo ⟨trivial, ⟨.ne, rfl⟩, trivial⟩
      (.assign ⟨trivial, ⟨.sub, rfl⟩, trivial⟩
        (.ifElse ⟨trivial, ⟨.gt, rfl⟩, trivial⟩
          (.assign ⟨trivial, ⟨.add, rfl⟩, trivial⟩ .nil)
          (.whileDo ⟨trivial, ⟨.lt, rfl⟩, trivial⟩
            (.assign ⟨trivial, ⟨.add, rfl⟩, trivial⟩ .nil) .nil)
          (.ifElse ⟨trivial, ⟨.ge, rfl⟩, trivial⟩ .nil (.assign trivial .nil) .nil))) .nil
  have hn : ∀ x ∈ (Inputs.ofNaturals [("a", 3), ("b", 5)]).names,
      x ∈ ["b"] ∨ x ∈ (Program.whileDo counting).names := by
    decide
  obtain ⟨q, hq, hrun⟩ : ∃ q, (Program.whileDo counting).whileToGoto ["b"] = .ok q ∧
      decide ((Machine.empty.evaluate .goto q (.ofNaturals [("a", 3), ("b", 5)])).error? =
        none) = true :=
    Except.exists_of_any (by decide +kernel)
  obtain ⟨t₂, h₂⟩ := Outcome.exists_of_error?_eq_none (of_decide_eq_true hrun)
  obtain ⟨t₁, h₁, hstore⟩ :=
    ((WhileToGoto.evaluate_whileToGoto hs hn .empty .empty).2 q hq).1 t₂ h₂
  exact ⟨q, t₁, t₂, hq, h₂, h₁, hstore⟩

end CounterPrograms
