import CounterPrograms.Compile.GotoToWhile
import CounterPrograms.Proofs.Compile.Admission
import CounterPrograms.Proofs.Run.Path
import CounterPrograms.Proofs.Run.While

/-!
# GOTO programs simulated by a loop

`GotoToWhile.Dispatches l is body` says that `body` has one case for each of the instructions `is`.
The effect of an instruction leaves in the counter where the machine goes next
(`GotoToWhile.exec_of_going`, `GotoToWhile.exec_of_halted`).

A pass through the body executes every instruction of the machine up to the next move that does not
lead forward, for a later case of the same pass catches a forward move.  So the loop checks its
condition once for each move that is not forward, and once to end
(`GotoToWhile.exec_of_halts`).
-/

namespace CounterPrograms

namespace GotoToWhile

open Machine

/-- The layout of the compilation of `is` with the counter `c`. -/
def layout (c : String) (is : List Instruction) : Layout :=
  ⟨c, Labels.carried 1 is, is.length⟩

/-- The loop of a simulation. -/
def dispatchLoop (c : String) (body : List Stmt) : Stmt :=
  .whileDo ⟨.var c, Comparison.ne.symbol, .num 0⟩ body

/-- The value of the counter when the machine stands at a position. -/
def counterAt (is : List Instruction) (p : Nat) : Int :=
  if p < is.length then p + 1 else 0

/-- There is a case for each instruction, in order. -/
structure Dispatches (c : String) (is : List Instruction) (body : List Stmt) : Prop where
  length : body.length = is.length
  get : ∀ j i, is[j]? = some i → ∃ effect,
    (layout c is).effect (j + 1) i.statement = .ok effect ∧
      body[j]? = some (.ifThen ((layout c is).isAt (j + 1)) effect none)

theorem get_of_cases {l : Layout} {p : Nat} {is : List Instruction} {body : List Stmt}
    (h : l.cases p is = .ok body) :
    body.length = is.length ∧ ∀ j i, is[j]? = some i → ∃ effect,
      l.effect (p + j) i.statement = .ok effect ∧
        body[j]? = some (.ifThen (l.isAt (p + j)) effect none) := by
  induction is generalizing p body with
  | nil =>
      obtain rfl := Except.pure_eq_ok_iff.mp h
      exact ⟨rfl, fun _ _ hj => nomatch hj⟩
  | cons k rest ih =>
      obtain ⟨first, hf, h⟩ := Except.bind_eq_ok_iff.mp h
      obtain ⟨others, ho, h⟩ := Except.bind_eq_ok_iff.mp h
      obtain rfl := Except.pure_eq_ok_iff.mp h
      obtain ⟨hlen, hget⟩ := ih ho
      refine ⟨congrArg (· + 1) hlen, fun j i hj => ?_⟩
      cases j with
      | zero =>
          obtain rfl := Option.some.inj hj
          exact ⟨first, hf, rfl⟩
      | succ j =>
          have hpos : p + 1 + j = p + (j + 1) := by omega
          rw [← hpos]
          exact hget j i hj

theorem dispatches_of_cases {c : String} {is : List Instruction} {body : List Stmt}
    (h : (layout c is).cases 1 is = .ok body) : Dispatches c is body := by
  obtain ⟨hlen, hget⟩ := get_of_cases h
  refine ⟨hlen, fun j i hj => ?_⟩
  rw [Nat.add_comm j 1]
  exact hget j i hj

theorem mem_names_of_effect {l : Layout} {p : Nat} {st : Stmt} {effect : List Stmt}
    (h : l.effect p st = .ok effect) {x : String} (hx : x ∈ st.names) :
    x ∈ Stmt.namesOfBlock effect := by
  cases st with
  | assign y e =>
      obtain ⟨e', he, h⟩ := Except.bind_eq_ok_iff.mp h
      obtain rfl := Except.pure_eq_ok_iff.mp h
      rw [Expr.eq_of_admitted he]
      exact List.mem_append_left _ hx
  | ifGoto c label =>
      obtain ⟨c', hc, h⟩ := Except.bind_eq_ok_iff.mp h
      obtain ⟨target, _, h⟩ := Except.bind_eq_ok_iff.mp h
      obtain rfl := Except.pure_eq_ok_iff.mp h
      rw [Condition.eq_of_admitted hc]
      exact List.mem_append_left _ (List.mem_append_left _ (List.mem_append_left _ hx))
  | goto | halt => exact absurd hx List.not_mem_nil
  | loop | whileDo | ifThen | foreign => cases h

theorem names_of_effect {l : Layout} {p : Nat} {st : Stmt} {effect : List Stmt}
    (h : l.effect p st = .ok effect) {x : String} (hx : x ∈ Stmt.namesOfBlock effect) :
    x ∈ st.names ∨ x = l.counter := by
  cases st with
  | assign y e =>
      obtain ⟨e', he, h⟩ := Except.bind_eq_ok_iff.mp h
      obtain rfl := Except.pure_eq_ok_iff.mp h
      obtain rfl := Expr.eq_of_admitted he
      rcases List.mem_append.mp hx with hx | hx
      · exact .inl hx
      · exact .inr (List.mem_singleton.mp hx)
  | goto label =>
      obtain ⟨target, _, h⟩ := Except.bind_eq_ok_iff.mp h
      obtain rfl := Except.pure_eq_ok_iff.mp h
      exact .inr (List.mem_singleton.mp hx)
  | ifGoto c label =>
      obtain ⟨c', hc, h⟩ := Except.bind_eq_ok_iff.mp h
      obtain ⟨target, _, h⟩ := Except.bind_eq_ok_iff.mp h
      obtain rfl := Except.pure_eq_ok_iff.mp h
      obtain rfl := Condition.eq_of_admitted hc
      simp only [Stmt.namesOfBlock, Layout.moveTo, Stmt.names, Expr.names, List.mem_append,
        List.mem_singleton, List.not_mem_nil, or_false] at hx
      rcases hx with (hx | hx) | hx
      · exact .inl hx
      · exact .inr hx
      · exact .inr hx
  | halt =>
      obtain rfl := Except.pure_eq_ok_iff.mp h
      exact .inr (List.mem_singleton.mp hx)
  | loop | whileDo | ifThen | foreign => cases h

theorem Dispatches.mem_names {c : String} {is : List Instruction} {body : List Stmt}
    (h : Dispatches c is body) {x : String} (hx : x ∈ (Program.goto is).names) :
    x ∈ Stmt.namesOfBlock body := by
  obtain ⟨i, hi, hx⟩ := Program.mem_names_goto_iff.mp hx
  obtain ⟨j, hj⟩ := List.mem_iff_getElem?.mp hi
  obtain ⟨effect, heff, hcase⟩ := h.get j i hj
  rw [Stmt.mem_namesOfBlock_iff]
  exact ⟨_, List.mem_of_getElem? hcase, List.mem_append_right _ (mem_names_of_effect heff hx)⟩

theorem Dispatches.names_cases {c : String} {is : List Instruction} {body : List Stmt}
    (h : Dispatches c is body) {x : String} (hx : x ∈ Stmt.namesOfBlock body) :
    x ∈ (Program.goto is).names ∨ x = c := by
  obtain ⟨st, hst, hx⟩ := Stmt.mem_namesOfBlock_iff.mp hx
  obtain ⟨j, hj⟩ := List.mem_iff_getElem?.mp hst
  have hlt : j < is.length := by
    rw [← h.length]
    exact (List.getElem?_eq_some_iff.mp hj).1
  obtain ⟨effect, heff, hcase⟩ := h.get j _ (List.getElem?_eq_getElem hlt)
  obtain rfl := Option.some.inj (hj.symm.trans hcase)
  rcases List.mem_append.mp hx with hx | hx
  · exact .inr (List.mem_singleton.mp hx)
  · refine (names_of_effect heff hx).imp_left fun hx => ?_
    exact Program.mem_names_goto_iff.mpr ⟨_, List.getElem_mem hlt, hx⟩

/-! ### The effect of an instruction -/

section effect

variable {c : String} {is : List Instruction} {s t : Machine} {μ : Memory} {effect : List Stmt}

theorem exec_moveTo (is : List Instruction) {m : Memory} (ha : m.AgreesBut [c] μ) (p : Nat) :
    ∃ μ', While.Exec [(layout c is).moveTo p] 0 μ μ' ∧ m.AgreesBut [c] μ' ∧
      μ'.store.get? c = some (p : Int) := by
  have hc : c ∈ [c] := List.mem_singleton.mpr rfl
  exact ⟨_, .assign rfl (.nil _), ha.assign_hidden hc p,
    Memory.get?_assign_self (ha.not_mem_locked c hc) p⟩

theorem following_eq (p : Nat) :
    ((layout c is).following (p + 1) : Int) = counterAt is (p + 1) := by
  unfold Layout.following counterAt
  show ((if p + 1 < is.length then p + 1 + 1 else 0 : Nat) : Int) = _
  split <;> rfl

theorem target_eq_ok {l : String} {p k : Nat} (hk : (layout c is).target l = .ok k)
    (hp : (Labels.carried 0 is).lookup l = some p) : (k : Int) = counterAt is p := by
  obtain ⟨j, i, hj, _, hpj⟩ := Labels.exists_of_lookup_carried hp
  have hlt : p < is.length := by
    have := (List.getElem?_eq_some_iff.mp hj).1
    omega
  have hlook : (layout c is).positions.lookup l = some (p + 1) := by
    show (Labels.carried (0 + 1) is).lookup l = _
    rw [Labels.lookup_carried_succ, hp]
    rfl
  unfold Layout.target at hk
  rw [hlook] at hk
  rw [counterAt, if_pos hlt, ← Except.ok.inj hk]
  rfl

/-- The effect of an instruction after which the machine goes on. -/
theorem exec_of_going {st : Stmt} (hn : ∀ x ∈ st.names, x ∉ [c])
    (hl : s.labels = Labels.carried 0 is)
    (heff : (layout c is).effect (s.pc + 1) st = .ok effect)
    (he : s.count.execute st = .going t) (ha : s.memory.AgreesBut [c] μ) :
    ∃ μ', While.Exec effect 0 μ μ' ∧ t.memory.AgreesBut [c] μ' ∧
      μ'.store.get? c = some (counterAt is t.pc) := by
  rcases execute_eq_going he with ⟨x, e, n, rfl, hv, rfl⟩ | ⟨l, p, rfl, hp, rfl⟩ |
    ⟨d, l, p, rfl, hd, hp, rfl⟩ | ⟨d, l, rfl, hd, rfl⟩
  · obtain ⟨e', hok, heff⟩ := Except.bind_eq_ok_iff.mp heff
    obtain rfl := Except.pure_eq_ok_iff.mp heff
    rw [Expr.eq_of_admitted hok]
    have hx : x ∉ [c] := hn x List.mem_cons_self
    have hv' : e.eval μ.store = .ok n := by
      rw [← ha.eval_eq fun y hy => hn y (List.mem_cons_of_mem x hy)]
      exact hv
    obtain ⟨μ', hex, ha', hc⟩ := exec_moveTo is (ha.count_left.assign hx n)
      ((layout c is).following (s.pc + 1))
    rw [following_eq] at hc
    exact ⟨μ', .assign hv' hex, ha', hc⟩
  · obtain ⟨k, hk, heff⟩ := Except.bind_eq_ok_iff.mp heff
    obtain rfl := Except.pure_eq_ok_iff.mp heff
    obtain ⟨μ', hex, ha', hc⟩ := exec_moveTo is ha.count_left k
    rw [target_eq_ok hk (hl ▸ hp)] at hc
    exact ⟨μ', hex, ha', hc⟩
  · obtain ⟨d', hok, heff⟩ := Except.bind_eq_ok_iff.mp heff
    obtain ⟨k, hk, heff⟩ := Except.bind_eq_ok_iff.mp heff
    obtain rfl := Except.pure_eq_ok_iff.mp heff
    rw [Condition.eq_of_admitted hok]
    have hd' : d.eval μ.store = .ok true := by
      rw [← ha.test_eq hn]
      exact hd
    obtain ⟨μ', hex, ha', hc⟩ := exec_moveTo is ha.count_left k
    rw [target_eq_ok hk (hl ▸ hp)] at hc
    exact ⟨μ', .ifTrue hd' hex (.nil μ'), ha', hc⟩
  · obtain ⟨d', hok, heff⟩ := Except.bind_eq_ok_iff.mp heff
    obtain ⟨k, hk, heff⟩ := Except.bind_eq_ok_iff.mp heff
    obtain rfl := Except.pure_eq_ok_iff.mp heff
    rw [Condition.eq_of_admitted hok]
    have hd' : d.eval μ.store = .ok false := by
      rw [← ha.test_eq hn]
      exact hd
    obtain ⟨μ', hex, ha', hc⟩ := exec_moveTo is ha.count_left
      ((layout c is).following (s.pc + 1))
    rw [following_eq] at hc
    exact ⟨μ', .ifFalse (e := some _) hd' hex (.nil μ'), ha', hc⟩

theorem exec_of_halted {st : Stmt} (heff : (layout c is).effect (s.pc + 1) st = .ok effect)
    (he : s.count.execute st = .halted t) (ha : s.memory.AgreesBut [c] μ) :
    ∃ μ', While.Exec effect 0 μ μ' ∧ t.memory.AgreesBut [c] μ' ∧
      μ'.store.get? c = some 0 := by
  obtain ⟨rfl, rfl⟩ := execute_eq_halted he
  obtain rfl := Except.pure_eq_ok_iff.mp heff
  exact exec_moveTo is ha.count_left 0

end effect

/-! ### Passes -/

section passes

variable {c : String} {is : List Instruction} {body : List Stmt} {j p n : Nat} {μ μ' μ'' : Memory}

theorem eval_isAt {v : Int} (hc : μ.store.get? c = some v) (p : Nat) :
    ((layout c is).isAt p).eval μ.store = .ok (decide (v = p)) :=
  Condition.eval_var_num (Store.value_of_get? hc) .eq p

theorem eval_running {v : Int} (hc : μ.store.get? c = some v) :
    (⟨.var c, Comparison.ne.symbol, .num 0⟩ : Condition).eval μ.store = .ok (decide (v ≠ 0)) :=
  Condition.eval_var_num (Store.value_of_get? hc) .ne 0

theorem drop_eq_cons {st : Stmt} (h : body[j]? = some st) :
    body.drop j = st :: body.drop (j + 1) := by
  obtain ⟨hlt, rfl⟩ := List.getElem?_eq_some_iff.mp h
  exact List.drop_eq_getElem_cons hlt

/-- Cases of other instructions have no effect. -/
theorem Dispatches.skip (hd : Dispatches c is body) {v : Int} (hc : μ.store.get? c = some v)
    (hjp : j ≤ p) (hp : p ≤ is.length) (hv : ∀ i, j ≤ i → i < p → v ≠ ((i + 1 : Nat) : Int))
    (h : While.Exec (body.drop p) n μ μ') : While.Exec (body.drop j) n μ μ' := by
  obtain ⟨d, rfl⟩ : ∃ d, p = j + d := ⟨p - j, by omega⟩
  induction d generalizing j with
  | zero => exact h
  | succ d ih =>
      obtain ⟨i, hi⟩ : ∃ i, is[j]? = some i := ⟨_, List.getElem?_eq_getElem (by omega)⟩
      obtain ⟨effect, _, hcase⟩ := hd.get j i hi
      have hother : ((layout c is).isAt (j + 1)).eval μ.store = .ok false := by
        rw [eval_isAt hc, decide_eq_false (hv j (Nat.le_refl j) (by omega))]
      have hrest : While.Exec (body.drop (j + 1)) n μ μ' := by
        refine ih (by omega) (by omega) (fun i hi hi' => hv i (by omega) (by omega)) ?_
        rwa [Nat.add_assoc, Nat.add_comm 1 d]
      rw [drop_eq_cons hcase, ← Nat.zero_add n]
      exact .ifFalse hother (.nil μ) hrest

/-- A pass comes to the case of the instruction at which the machine stands. -/
theorem Dispatches.pass (hd : Dispatches c is body) {i : Instruction} (hi : is[p]? = some i)
    {effect : List Stmt} (heff : (layout c is).effect (p + 1) i.statement = .ok effect)
    (hc : μ.store.get? c = some (counterAt is p)) (hjp : j ≤ p)
    (hex : While.Exec effect 0 μ μ') (h : While.Exec (body.drop (p + 1)) n μ' μ'') :
    While.Exec (body.drop j) n μ μ'' := by
  have hp : p < is.length := (List.getElem?_eq_some_iff.mp hi).1
  rw [counterAt, if_pos hp] at hc
  refine hd.skip hc hjp (Nat.le_of_lt hp) (fun i _ hi => by omega) ?_
  obtain ⟨effect', heff', hcase⟩ := hd.get p i hi
  obtain rfl := Except.ok.inj (heff.symm.trans heff')
  have hat : ((layout c is).isAt (p + 1)).eval μ.store = .ok true := by
    rw [eval_isAt hc, decide_eq_true (by omega)]
  rw [drop_eq_cons hcase, ← Nat.zero_add n]
  exact .ifTrue hat hex h

/-- A pass comes to its end when the instructions of all cases left are others. -/
theorem Dispatches.exec_rest (hd : Dispatches c is body) {v : Int} (hc : μ.store.get? c = some v)
    (hj : j ≤ is.length) (hv : ∀ i, j ≤ i → v ≠ ((i + 1 : Nat) : Int)) :
    While.Exec (body.drop j) 0 μ μ := by
  refine hd.skip hc hj (Nat.le_refl _) (fun i hi _ => hv i hi) ?_
  rw [← hd.length, List.drop_length]
  exact .nil μ

theorem Dispatches.exec_of_zero (hd : Dispatches c is body) (hc : μ.store.get? c = some 0)
    (hj : j ≤ is.length) :
    While.Exec (body.drop j) 0 μ μ ∧ While.Exec [dispatchLoop c body] 1 μ μ.count :=
  ⟨hd.exec_rest hc hj fun i _ => by omega, .whileFalse (eval_running hc) (.nil μ.count)⟩

/-- When the machine has not moved forward, the rest of the pass has no effect, and the loop begins
another pass. -/
theorem Dispatches.exec_again (hd : Dispatches c is body) {q : Nat} (hqp : q ≤ p)
    (hp : p < is.length) (hc : μ.store.get? c = some (counterAt is q)) {μ₁ μ₂ : Memory}
    (hpass : While.Exec body 0 μ.count μ₁) (hloop : While.Exec [dispatchLoop c body] n μ₁ μ₂) :
    While.Exec (body.drop (p + 1)) 0 μ μ ∧ While.Exec [dispatchLoop c body] (n + 1) μ μ₂ := by
  rw [counterAt, if_pos (by omega)] at hc
  refine ⟨hd.exec_rest hc hp fun i hi => by omega, ?_⟩
  have hcond : (⟨.var c, Comparison.ne.symbol, .num 0⟩ : Condition).eval μ.store = .ok true := by
    rw [eval_running hc, decide_eq_true (by omega)]
  rw [← Nat.zero_add n]
  exact .whileTrue hcond hpass hloop

end passes

/-! ### Runs -/

variable {c : String} {is : List Instruction} {body : List Stmt} {path : List Nat} {s t : Machine}

/-- A halting run of the machine is a run of the loop, begun within a pass at any case that is not
behind the position of the machine. -/
theorem exec_of_halts (hd : Dispatches c is body) (hn : ∀ x ∈ (Program.goto is).names, x ∉ [c])
    (h : Halts is path s t) (hl : s.labels = Labels.carried 0 is) (hpc : s.pc < is.length)
    {j : Nat} (hj : j ≤ s.pc) {μ : Memory} (ha : s.memory.AgreesBut [c] μ)
    (hc : μ.store.get? c = some (counterAt is s.pc)) :
    ∃ μ₁ μ₂, While.Exec (body.drop j) 0 μ μ₁ ∧
      While.Exec [dispatchLoop c body] (backwardMoves path + 1) μ₁ μ₂ ∧
      t.memory.AgreesBut [c] μ₂ ∧ μ₂.store.get? c = some 0 := by
  induction h generalizing j μ with
  | behind hi =>
      rw [List.getElem?_eq_none_iff] at hi
      omega
  | halt hi he =>
      obtain ⟨effect, heff, _⟩ := hd.get _ _ hi
      obtain ⟨μ', hex, ha', hc'⟩ := exec_of_halted heff he ha
      obtain ⟨hrest, hloop⟩ := hd.exec_of_zero hc' hpc
      exact ⟨μ', μ'.count, hd.pass hi heff hc hj hex hrest, hloop, ha'.count_right, hc'⟩
  | @step s s' t i path hi he hr ih =>
      obtain ⟨effect, heff, _⟩ := hd.get _ _ hi
      have hni : ∀ x ∈ i.statement.names, x ∉ [c] := fun x hx =>
        hn x (Program.mem_names_goto_iff.mpr ⟨i, List.mem_of_getElem? hi, hx⟩)
      obtain ⟨μ', hex, ha', hc'⟩ := exec_of_going hni hl heff he ha
      have hl' : s'.labels = Labels.carried 0 is :=
        (labels_of_execute (s := s.count) he).trans hl
      cases path with
      | nil =>
          -- The machine has gone behind the last instruction.
          cases hr with
          | behind hi' =>
              rw [List.getElem?_eq_none_iff] at hi'
              rw [counterAt, if_neg (by omega)] at hc'
              obtain ⟨hrest, hloop⟩ := hd.exec_of_zero hc' hpc
              exact ⟨μ', μ'.count, hd.pass hi heff hc hj hex hrest, hloop, ha'.count_right, hc'⟩
      | cons k rest =>
          have hpc' := hr.pc_lt
          obtain rfl := hr.head_eq
          rw [backwardMoves]
          by_cases hle : s'.pc ≤ s.pc
          · obtain ⟨μ₁, μ₂, hpass, hloop, ha₂, hc₂⟩ :=
              ih hl' hpc' (Nat.zero_le _) ha'.count_right hc'
            obtain ⟨hrest, hagain⟩ := hd.exec_again hle hpc hc' hpass hloop
            refine ⟨μ', μ₂, hd.pass hi heff hc hj hex hrest, ?_, ha₂, hc₂⟩
            rwa [if_pos hle, Nat.add_comm 1]
          · -- A later case of the same pass catches the move.
            obtain ⟨μ₁, μ₂, hpass, hloop, ha₂, hc₂⟩ :=
              ih hl' hpc' (j := s.pc + 1) (by omega) ha' hc'
            rw [if_neg hle, Nat.zero_add]
            exact ⟨μ₁, μ₂, hd.pass hi heff hc hj hex hpass, hloop, ha₂, hc₂⟩

end GotoToWhile

end CounterPrograms
