import CounterPrograms.Proofs.Program.Block
import CounterPrograms.Proofs.Sequence
import CounterPrograms.Run.Evaluate

/-!
# Memories compared

A compiled program has variables of its own.  `Memory.AgreesBut hidden m μ` says that `m` is the
memory `μ` without the variables in `hidden`: assigning the same value on both sides keeps it so,
and so does an assignment to a hidden variable on the side of `μ`.  Expressions and conditions
without hidden variables have the same values in both.

The second half is about the memory with which an evaluation begins (`Memory.Initial`).
-/

namespace CounterPrograms

/-! ### Values -/

theorem Expr.eval_congr {s t : Store} {e : Expr} (h : ∀ x ∈ e.names, s.value x = t.value x) :
    e.eval s = e.eval t := by
  induction e with
  | num n => rfl
  | var name => rw [eval, eval, h name List.mem_cons_self]
  | binary left op right ihl ihr =>
      rw [eval, eval, ihl fun x hx => h x (List.mem_append_left _ hx),
        ihr fun x hx => h x (List.mem_append_right _ hx)]
  | foreign f => rfl

theorem Condition.eval_congr {s t : Store} {c : Condition}
    (h : ∀ x ∈ c.names, s.value x = t.value x) : c.eval s = c.eval t := by
  rw [eval, eval, Expr.eval_congr fun x hx => h x (List.mem_append_left _ hx),
    Expr.eval_congr fun x hx => h x (List.mem_append_right _ hx)]

/-- A proper expression has a value in every store. -/
theorem Expr.Proper.eval_ok {e : Expr} (he : e.Proper) (s : Store) : ∃ n, e.eval s = .ok n := by
  induction e with
  | num n => exact ⟨n, rfl⟩
  | var name => exact ⟨s.value name, rfl⟩
  | binary left op right ihl ihr =>
      obtain ⟨hl, ⟨o, rfl⟩, hr⟩ := he
      obtain ⟨a, ha⟩ := ihl hl
      obtain ⟨b, hb⟩ := ihr hr
      refine ⟨o.apply a b, ?_⟩
      rw [eval, ha, hb]
      simp only [Arithmetic.ofSymbol?_symbol]
      rfl
  | foreign f => exact he.elim

theorem Condition.Proper.eval_ok {c : Condition} (hc : c.Proper) (s : Store) :
    ∃ b, c.eval s = .ok b := by
  obtain ⟨a, ha⟩ := hc.left.eval_ok s
  obtain ⟨b, hb⟩ := hc.right.eval_ok s
  obtain ⟨o, ho⟩ := hc.op
  refine ⟨o.holds a b, ?_⟩
  rw [eval, ha, hb, ho]
  simp only [Comparison.ofSymbol?_symbol]
  rfl

theorem Condition.eval_var_num {s : Store} {x : String} {v : Int} (h : s.value x = v)
    (o : Comparison) (n : Int) :
    (⟨.var x, o.symbol, .num n⟩ : Condition).eval s = .ok (o.holds v n) := by
  rw [eval, Expr.eval, Expr.eval, h]
  simp only [Comparison.ofSymbol?_symbol]
  rfl

theorem Arithmetic.apply_nonneg (o : Arithmetic) {a b : Int} (ha : 0 ≤ a) (hb : 0 ≤ b) :
    0 ≤ o.apply a b := by
  cases o with
  | add => exact Int.add_nonneg ha hb
  | sub => exact Int.le_max_left 0 (a - b)

/-- From natural numbers only natural numbers are made. -/
theorem Expr.eval_nonneg {s : Store} {e : Expr} {n : Int} (hs : ∀ x, 0 ≤ s.value x)
    (he : ∀ k ∈ e.literals, 0 ≤ k) (h : e.eval s = .ok n) : 0 ≤ n := by
  induction e generalizing n with
  | num k =>
      obtain rfl := Except.ok.inj h
      exact he k List.mem_cons_self
  | var name =>
      obtain rfl := Except.ok.inj h
      exact hs name
  | binary left op right ihl ihr =>
      obtain ⟨a, ha, h⟩ := Except.bind_eq_ok_iff.mp h
      obtain ⟨b, hb, h⟩ := Except.bind_eq_ok_iff.mp h
      have ha0 : 0 ≤ a := ihl (fun k hk => he k (List.mem_append_left _ hk)) ha
      have hb0 : 0 ≤ b := ihr (fun k hk => he k (List.mem_append_right _ hk)) hb
      split at h
      · rw [← Except.pure_eq_ok_iff.mp h]
        exact Arithmetic.apply_nonneg _ ha0 hb0
      · cases h
  | foreign f => cases h

/-! ### Stores -/

theorem Store.value_of_get? {s : Store} {x : String} {v : Int} (h : s.get? x = some v) :
    s.value x = v := by
  rw [value, h, Option.getD_some]

/-- `s` is `t` without the variables in `hidden`: it gives a value to the same other variables, and
the same value. -/
def Store.IsWithout (hidden : List String) (s t : Store) : Prop :=
  ∀ x, s.get? x = if x ∈ hidden then none else t.get? x

namespace Store.IsWithout

variable {hidden : List String} {s t : Store}

theorem get?_eq (h : s.IsWithout hidden t) {x : String} (hx : x ∉ hidden) :
    s.get? x = t.get? x := by
  rw [h x, if_neg hx]

theorem value_eq (h : s.IsWithout hidden t) {x : String} (hx : x ∉ hidden) :
    s.value x = t.value x := by
  rw [Store.value, Store.value, h.get?_eq hx]

theorem set (h : s.IsWithout hidden t) {x : String} (hx : x ∉ hidden) (v : Int) :
    (s.set x v).IsWithout hidden (t.set x v) := by
  intro y
  rw [get?_set, get?_set]
  by_cases hy : y = x
  · rw [if_pos hy, if_pos hy, if_neg (hy ▸ hx)]
  · rw [if_neg hy, if_neg hy, h y]

theorem set_hidden (h : s.IsWithout hidden t) {x : String} (hx : x ∈ hidden) (v : Int) :
    s.IsWithout hidden (t.set x v) := by
  intro y
  rw [get?_set, h y]
  by_cases hy : y = x
  · rw [if_pos (hy ▸ hx), if_pos (hy ▸ hx)]
  · rw [if_neg hy]

end Store.IsWithout

/-! ### Memories -/

namespace Memory

theorem assign_of_mem {m : Memory} {x : String} (hx : x ∈ m.locked) (v : Int) :
    m.assign x v = { m with locked := m.locked.filter (· ≠ x) } :=
  if_pos hx

theorem assign_of_not_mem {m : Memory} {x : String} (hx : x ∉ m.locked) (v : Int) :
    m.assign x v = { m with store := m.store.set x v } :=
  if_neg hx

@[simp]
theorem steps_assign (m : Memory) (x : String) (v : Int) : (m.assign x v).steps = m.steps := by
  unfold assign
  split <;> rfl

theorem assign_with_steps (m : Memory) (x : String) (v : Int) (n : Nat) :
    ({ m with steps := n }).assign x v = { m.assign x v with steps := n } := by
  by_cases hx : x ∈ m.locked
  · rw [assign_of_mem hx, assign_of_mem (m := { m with steps := n }) hx]
  · rw [assign_of_not_mem hx, assign_of_not_mem (m := { m with steps := n }) hx]

@[simp]
theorem store_count (m : Memory) : m.count.store = m.store := rfl

@[simp]
theorem steps_count (m : Memory) : m.count.steps = m.steps + 1 := rfl

theorem mem_locked_assign {m : Memory} {x y : String} {v : Int} :
    y ∈ (m.assign x v).locked ↔ y ∈ m.locked ∧ y ≠ x := by
  by_cases hx : x ∈ m.locked
  · simp [assign_of_mem hx]
  · rw [assign_of_not_mem hx]
    exact ⟨fun hy => ⟨hy, fun h => hx (h ▸ hy)⟩, fun hy => hy.1⟩

theorem get?_assign_of_ne {m : Memory} {x y : String} (hy : y ≠ x) (v : Int) :
    (m.assign x v).store.get? y = m.store.get? y := by
  by_cases hx : x ∈ m.locked
  · rw [assign_of_mem hx]
  · rw [assign_of_not_mem hx, Store.get?_set, if_neg hy]

theorem get?_assign_self {m : Memory} {x : String} (hx : x ∉ m.locked) (v : Int) :
    (m.assign x v).store.get? x = some v := by
  rw [assign_of_not_mem hx, Store.get?_set, if_pos rfl]

theorem value_assign_self {m : Memory} {x : String} (hx : x ∉ m.locked) (v : Int) :
    (m.assign x v).store.value x = v :=
  Store.value_of_get? (get?_assign_self hx v)

theorem value_assign_nonneg {m : Memory} (hm : ∀ y, 0 ≤ m.store.value y) {x : String} {v : Int}
    (hv : 0 ≤ v) (y : String) : 0 ≤ (m.assign x v).store.value y := by
  by_cases hx : x ∈ m.locked
  · rw [assign_of_mem hx]
    exact hm y
  · rw [assign_of_not_mem hx, Store.value_set]
    split
    · exact hv
    · exact hm y

/-- `m` is the memory `μ` without the variables in `hidden`, none of which is locked.  The steps
taken do not matter. -/
structure AgreesBut (hidden : List String) (m μ : Memory) : Prop where
  store : m.store.IsWithout hidden μ.store
  mem_locked : ∀ x, x ∈ m.locked ↔ x ∈ μ.locked
  not_mem_locked : ∀ x ∈ hidden, x ∉ μ.locked

namespace AgreesBut

variable {hidden : List String} {m μ : Memory}

theorem eval_eq (h : m.AgreesBut hidden μ) {e : Expr} (he : ∀ x ∈ e.names, x ∉ hidden) :
    e.eval m.store = e.eval μ.store :=
  Expr.eval_congr fun x hx => h.store.value_eq (he x hx)

theorem test_eq (h : m.AgreesBut hidden μ) {c : Condition} (hc : ∀ x ∈ c.names, x ∉ hidden) :
    c.eval m.store = c.eval μ.store :=
  Condition.eval_congr fun x hx => h.store.value_eq (hc x hx)

theorem count_left (h : m.AgreesBut hidden μ) : m.count.AgreesBut hidden μ :=
  ⟨h.store, h.mem_locked, h.not_mem_locked⟩

theorem count_right (h : m.AgreesBut hidden μ) : m.AgreesBut hidden μ.count :=
  ⟨h.store, h.mem_locked, h.not_mem_locked⟩

theorem assign (h : m.AgreesBut hidden μ) {x : String} (hx : x ∉ hidden) (v : Int) :
    (m.assign x v).AgreesBut hidden (μ.assign x v) := by
  refine ⟨?_, ?_, ?_⟩
  · by_cases hm : x ∈ m.locked
    · rw [assign_of_mem hm, assign_of_mem ((h.mem_locked x).mp hm)]
      exact h.store
    · rw [assign_of_not_mem hm, assign_of_not_mem fun hμ => hm ((h.mem_locked x).mpr hμ)]
      exact h.store.set hx v
  · intro y
    rw [mem_locked_assign, mem_locked_assign, h.mem_locked y]
  · intro y hy hl
    exact h.not_mem_locked y hy (mem_locked_assign.mp hl).1

theorem assign_hidden (h : m.AgreesBut hidden μ) {x : String} (hx : x ∈ hidden) (v : Int) :
    m.AgreesBut hidden (μ.assign x v) := by
  rw [assign_of_not_mem (h.not_mem_locked x hx)]
  exact ⟨h.store.set_hidden hx v, h.mem_locked, h.not_mem_locked⟩

end AgreesBut

/-! ### The memory before a run -/

/-- A memory in which the given names, and no others, have got natural numbers. -/
structure Initial (names : List String) (m : Memory) : Prop where
  mem_locked : ∀ x, x ∈ m.locked ↔ x ∈ names
  get?_eq_none : ∀ x, x ∉ names → m.store.get? x = none
  value_nonneg : ∀ x, 0 ≤ m.store.value x
  steps : m.steps = 0

theorem Initial.agreesBut {names hidden : List String} {m : Memory} (h : m.Initial names)
    (hd : ∀ x ∈ hidden, x ∉ names) : m.AgreesBut hidden m := by
  refine ⟨?_, fun _ => Iff.rfl, fun x hx hl => hd x hx ((h.mem_locked x).mp hl)⟩
  intro x
  split
  · next hx => exact h.get?_eq_none x (hd x hx)
  · rfl

/-- New variables are not among the names that have got values, if these were in use. -/
theorem Initial.agreesBut_of_new {names own reserved hidden : List String} {m : Memory}
    (h : m.Initial names) (hnames : ∀ x ∈ names, x ∈ reserved ∨ x ∈ own)
    (hnew : ∀ x ∈ hidden, x ∉ own ++ reserved) : m.AgreesBut hidden m := by
  refine h.agreesBut fun x hx hmem => ?_
  have hout := hnew x hx
  rw [List.mem_append, not_or] at hout
  exact (hnames x hmem).elim hout.2 hout.1

theorem initial_empty : empty.Initial [] :=
  ⟨fun _ => Iff.rfl, fun _ _ => rfl, fun _ => Int.le_refl 0, rfl⟩

theorem Initial.bind {names : List String} {m : Memory} (h : m.Initial names) (x : String)
    (n : Nat) : (m.bind x n).Initial (x :: names) := by
  refine ⟨?_, ?_, ?_, h.steps⟩
  · intro y
    show y ∈ x :: m.locked ↔ _
    rw [List.mem_cons, List.mem_cons, h.mem_locked y]
  · intro y hy
    show (m.store.set x n).get? y = none
    rw [List.mem_cons, not_or] at hy
    rw [Store.get?_set, if_neg hy.1]
    exact h.get?_eq_none y hy.2
  · intro y
    show 0 ≤ (m.store.set x n).value y
    rw [Store.value_set]
    split
    · exact Int.natCast_nonneg n
    · exact h.value_nonneg y

theorem bindAll_of_natural {inputs : Inputs} (hi : ∀ p ∈ inputs, ∃ n, p.2 = .natural n)
    {names : List String} {m : Memory} (hm : m.Initial names) :
    ∃ m', bindAll inputs m = .returned m' ∧ m'.Initial (inputs.names.reverse ++ names) := by
  induction inputs generalizing m names with
  | nil => exact ⟨m, rfl, hm⟩
  | cons p inputs ih =>
      obtain ⟨x, v⟩ := p
      obtain ⟨n, hn⟩ := hi _ List.mem_cons_self
      obtain rfl : v = .natural n := hn
      obtain ⟨m', hm', hinit⟩ :=
        ih (fun p hp => hi p (List.mem_cons_of_mem _ hp)) (hm.bind x n)
      refine ⟨m', hm', ?_⟩
      have hnames : Inputs.names ((x, .natural n) :: inputs) = x :: Inputs.names inputs := rfl
      rwa [hnames, List.reverse_cons, List.append_assoc]

theorem get?_bindAll_of_not_mem {inputs : Inputs} {m m' : Memory} {x : String}
    (h : bindAll inputs m = .returned m') (hx : x ∉ inputs.names) :
    m'.store.get? x = m.store.get? x := by
  induction inputs generalizing m with
  | nil =>
      obtain rfl := Outcome.returned.inj h
      rfl
  | cons i inputs ih =>
      obtain ⟨y, v⟩ := i
      have hne : x ≠ y ∧ x ∉ Inputs.names inputs := not_or.mp fun hm => hx (List.mem_cons.mpr hm)
      cases v with
      | natural n =>
          rw [ih h hne.2]
          show (m.store.set y n).get? x = _
          rw [Store.get?_set, if_neg hne.1]
      | unfit shown => cases h

theorem get?_bindAll_of_mem {inputs : Inputs} {m m' : Memory} {x : String} {v : Nat}
    (h : bindAll inputs m = .returned m') (hd : inputs.names.Nodup)
    (hx : (x, .natural v) ∈ inputs) : m'.store.get? x = some (v : Int) := by
  induction inputs generalizing m with
  | nil => cases hx
  | cons i inputs ih =>
      obtain ⟨hout, hdrest⟩ := List.nodup_cons.mp hd
      rcases List.mem_cons.mp hx with rfl | hxrest
      · rw [get?_bindAll_of_not_mem (m := m.bind x v) h hout]
        show (m.store.set x v).get? x = _
        rw [Store.get?_set, if_pos rfl]
      · obtain ⟨y, w⟩ := i
        cases w with
        | natural n => exact ih h hdrest hxrest
        | unfit shown => cases h

end Memory

theorem Inputs.natural_of_mem_ofNaturals {pairs : List (String × Nat)} {p : String × InitialValue}
    (h : p ∈ ofNaturals pairs) : ∃ n, p.2 = .natural n := by
  obtain ⟨q, _, rfl⟩ := List.mem_map.mp (Bindings.mem_of_mem_ofPairs h)
  exact ⟨q.2, rfl⟩

theorem Memory.bindAll_ofNaturals (pairs : List (String × Nat)) :
    ∃ m, bindAll (Inputs.ofNaturals pairs) .empty = .returned m ∧
      m.Initial (Inputs.ofNaturals pairs).names := by
  obtain ⟨m, hm, hi⟩ :=
    bindAll_of_natural (fun _ h => Inputs.natural_of_mem_ofNaturals h) initial_empty
  have hmem : ∀ x, x ∈ (Inputs.ofNaturals pairs).names.reverse ++ [] ↔
      x ∈ (Inputs.ofNaturals pairs).names := by
    intro x
    rw [List.append_nil, List.mem_reverse]
  refine ⟨m, hm, fun x => (hi.mem_locked x).trans (hmem x), ?_, hi.value_nonneg, hi.steps⟩
  exact fun x hx => hi.get?_eq_none x fun h => hx ((hmem x).mp h)

/-- The memory with which a run with the given initial values begins. -/
def Inputs.memory (inputs : Inputs) : Memory :=
  (Memory.bindAll inputs .empty).state

/-- A run with natural numbers begins with them bound and locked. -/
theorem Inputs.bindAll_memory (pairs : List (String × Nat)) :
    Memory.bindAll (ofNaturals pairs) .empty = .returned (ofNaturals pairs).memory ∧
      (ofNaturals pairs).memory.Initial (ofNaturals pairs).names := by
  obtain ⟨m, hm, hi⟩ := Memory.bindAll_ofNaturals pairs
  have hmem : (ofNaturals pairs).memory = m := by
    rw [memory, hm]
    rfl
  rw [hmem]
  exact ⟨hm, hi⟩

theorem Inputs.mem_names_ofNaturals_iff {pairs : List (String × Nat)} {x : String} :
    x ∈ (ofNaturals pairs).names ↔ ∃ n, (x, .natural n) ∈ ofNaturals pairs := by
  constructor
  · intro hx
    obtain ⟨⟨y, v⟩, hmem, rfl⟩ := List.mem_map.mp hx
    obtain ⟨n, hn⟩ := natural_of_mem_ofNaturals hmem
    obtain rfl : v = .natural n := hn
    exact ⟨n, hmem⟩
  · rintro ⟨n, hmem⟩
    exact List.mem_map_of_mem hmem

/-- The store is made of the given initial values: these names and no others have values in it, each
name its own. -/
def Store.Holds (s : Store) (inputs : Inputs) : Prop :=
  ∀ x (v : Int), s.get? x = some v ↔ ∃ n : Nat, (x, .natural n) ∈ inputs ∧ v = n

theorem Inputs.holds_memory (pairs : List (String × Nat)) :
    (ofNaturals pairs).memory.store.Holds (ofNaturals pairs) := by
  obtain ⟨hm, hi⟩ := bindAll_memory pairs
  have hbound : ∀ {x} {n : Nat}, (x, .natural n) ∈ ofNaturals pairs →
      (ofNaturals pairs).memory.store.get? x = some (n : Int) :=
    fun hx => Memory.get?_bindAll_of_mem hm (Bindings.nodup_ofPairs _) hx
  intro x v
  constructor
  · intro hv
    by_cases hx : x ∈ (ofNaturals pairs).names
    · obtain ⟨n, hn⟩ := mem_names_ofNaturals_iff.mp hx
      exact ⟨n, hn, Option.some.inj (hv.symm.trans (hbound hn))⟩
    · cases (hi.get?_eq_none x hx).symm.trans hv
  · rintro ⟨n, hn, rfl⟩
    exact hbound hn

/-! ### Evaluations -/

namespace Machine

theorem evaluate_ofNaturals (language : Language) (p : Program) (pairs : List (String × Nat))
    (s : Machine) :
    s.evaluate language p (.ofNaturals pairs) =
      execution language p { s with memory := (Inputs.ofNaturals pairs).memory } := by
  rw [evaluate, (Inputs.bindAll_memory pairs).1]
  rfl

variable {inputs : Inputs} {m : Memory}

theorem evaluate_loop (h : Memory.bindAll inputs .empty = .returned m) (ss : List Stmt)
    (s : Machine) : s.evaluate .loop (.loop ss) inputs =
      (Loop.runBlock ss m).map fun m => { s with memory := m } := by
  rw [evaluate, h]
  rfl

theorem evaluate_whileDo (h : Memory.bindAll inputs .empty = .returned m) (ss : List Stmt)
    (s : Machine) : s.evaluate .whileDo (.whileDo ss) inputs =
      (While.runBlock ss m).map fun m => { s with memory := m } := by
  rw [evaluate, h]
  rfl

theorem evaluate_goto (h : Memory.bindAll inputs .empty = .returned m) {is : List Instruction}
    (his : (Program.goto is).absent? = none) (s : Machine) :
    s.evaluate .goto (.goto is) inputs = start is { s with memory := m } := by
  rw [evaluate, h]
  show execution .goto (.goto is) { s with memory := m } = _
  rw [execution, his]
  rfl

theorem evaluate_goto_absent (h : Memory.bindAll inputs .empty = .returned m) {p : Program}
    {found : Foreign} (hp : p.absent? = some found) (s : Machine) :
    s.evaluate .goto p inputs = refuse p.instructions.tail found { s with memory := m } := by
  rw [evaluate, h]
  show execution .goto p { s with memory := m } = _
  rw [execution, hp]

end Machine

end CounterPrograms
