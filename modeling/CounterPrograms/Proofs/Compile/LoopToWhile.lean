import CounterPrograms.Compile.Between
import CounterPrograms.Proofs.Compile.Admission
import CounterPrograms.Proofs.Compile.Fresh
import CounterPrograms.Proofs.Run.Loop
import CounterPrograms.Proofs.Run.While

/-!
# LOOP programs keep their meaning as WHILE programs

`LoopToWhile.Image n ss ts n'` describes the compiled block `ts` of `ss` without the drawing of
names: its counters are the variables with the indices from `n` up to `n'`.  A loop counter keeps
its value while the body runs, for the body knows other variables only, so the compiled loop repeats
its body as often as the loop does (`LoopToWhile.exec_of_repeatTimes`).

The compiled program ends with the same values, after as many checks as the loops entered charge for
(`LoopToWhile.exec_of_image`), and the interpreter stops it iff these are more than the limit
(`LoopToWhile.evaluate_loopToWhile`).
-/

namespace CounterPrograms

/-- The variables of `q` that are none of `p`. -/
def Program.newNames (p q : Program) : List String :=
  q.names.filter fun x => x ∉ p.names

theorem Program.mem_newNames {p q : Program} {x : String} :
    x ∈ p.newNames q ↔ x ∈ q.names ∧ x ∉ p.names := by
  unfold newNames
  rw [List.mem_filter, decide_eq_true_eq]

/-! ### What loops charge for -/

/-- A loop that is entered charges one check for each repetition, and one to end it. -/
def Loop.charge : List Int → Int
  | [] => 0
  | v :: vs => v + 1 + charge vs

/-- What all loops entered in a run of a block charge. -/
def Loop.checks (ss : List Stmt) (m : Memory) : Int :=
  charge (entriesOfBlock ss m)

theorem Loop.charge_append (vs ws : List Int) : charge (vs ++ ws) = charge vs + charge ws := by
  induction vs with
  | nil => rw [List.nil_append, charge, Int.zero_add]
  | cons v vs ih => rw [List.cons_append, charge, charge, ih, Int.add_assoc (v + 1)]

theorem Loop.checks_assign {x : String} {e : Expr} {n : Int} {m : Memory}
    (h : e.eval m.store = .ok n) (rest : List Stmt) :
    checks (.assign x e :: rest) m = checks rest (m.assign x n) := by
  have hs : entriesOfStmt (.assign x e) m = [] := rfl
  rw [checks, entriesOfBlock, hs, runStmt, Memory.runAssign_of_eval h]
  rfl

theorem Loop.checks_loop {v : String} {body : List Stmt} {m m' : Memory}
    (h : runStmt (.loop v body) m = .returned m') (rest : List Stmt) :
    checks (.loop v body :: rest) m =
      m.store.value v + 1 +
        charge (repeatEntries (runBlock body) (entriesOfBlock body) (m.store.value v).toNat m) +
        checks rest m' := by
  rw [checks, entriesOfBlock, h, charge_append, entriesOfStmt, charge]
  rfl

namespace LoopToWhile

/-! ### Compiled blocks -/

/-- The compiled blocks of LOOP programs. -/
inductive Image : Nat → List Stmt → List Stmt → Nat → Prop
  | nil (n : Nat) : Image n [] [] n
  | assign {x : String} {e : Expr} {n n' : Nat} {rest ts : List Stmt} :
      Image n rest ts n' → Image n (.assign x e :: rest) (.assign x e :: ts) n'
  | loop {v : String} {n k n' : Nat} {body inner rest ts : List Stmt} :
      Image (n + 1) body inner k → Image k rest ts n' →
      Image n (.loop v body :: rest)
        (.assign (Fresh.variableName n) (.var v) ::
          .whileDo (nonzero (Fresh.variableName n)) (inner ++ [decrement (Fresh.variableName n)]) ::
          ts) n'

theorem lift_eq_ok_iff {α : Type} {x : Except CompileError α} {a : α} {f g : Fresh} :
    lift x f = .ok a g ↔ x = .ok a ∧ f = g := by
  unfold lift
  cases x with
  | ok b => simp
  | error e => simp

theorem freshVariable_eq_ok {x : String} {f g : Fresh} (h : freshVariable f = .ok x g) :
    x = Fresh.variableName f.nextVariable ∧ g = { f with nextVariable := f.nextVariable + 1 } := by
  unfold freshVariable at h
  split at h
  · next name f' hf =>
      obtain ⟨rfl, rfl⟩ := EStateM.pure_eq_ok_iff.mp h
      exact Fresh.newVariable_eq_ok hf
  · cases h

theorem image_of_compileBlock {ss ts : List Stmt} {f g : Fresh}
    (h : compileBlock ss f = .ok ts g) : Image f.nextVariable ss ts g.nextVariable := by
  induction ss using Stmt.blockInduction generalizing ts f g with
  | nil =>
      obtain ⟨rfl, rfl⟩ := EStateM.pure_eq_ok_iff.mp h
      exact .nil f.nextVariable
  | assign x e rest ih =>
      obtain ⟨first, f₁, h₁, h⟩ := EStateM.bind_eq_ok_iff.mp h
      obtain ⟨others, f₂, h₂, h⟩ := EStateM.bind_eq_ok_iff.mp h
      obtain ⟨rfl, rfl⟩ := EStateM.pure_eq_ok_iff.mp h
      obtain ⟨e', f₃, he, h₁⟩ := EStateM.bind_eq_ok_iff.mp h₁
      obtain ⟨rfl, rfl⟩ := EStateM.pure_eq_ok_iff.mp h₁
      obtain ⟨hok, rfl⟩ := lift_eq_ok_iff.mp he
      obtain rfl := Expr.eq_of_admitted hok
      exact .assign (ih h₂)
  | loop v body rest ihb ihr =>
      obtain ⟨first, f₁, h₁, h⟩ := EStateM.bind_eq_ok_iff.mp h
      obtain ⟨others, f₂, h₂, h⟩ := EStateM.bind_eq_ok_iff.mp h
      obtain ⟨rfl, rfl⟩ := EStateM.pure_eq_ok_iff.mp h
      obtain ⟨t, f₃, ht, h₁⟩ := EStateM.bind_eq_ok_iff.mp h₁
      obtain ⟨inner, f₄, hi, h₁⟩ := EStateM.bind_eq_ok_iff.mp h₁
      obtain ⟨rfl, rfl⟩ := EStateM.pure_eq_ok_iff.mp h₁
      obtain ⟨rfl, rfl⟩ := freshVariable_eq_ok ht
      exact .loop (ihb hi) (ihr h₂)
  | whileDo | ifThen | ifElse | goto | ifGoto | halt | foreign => cases h

namespace Image

variable {n n' : Nat} {ss ts : List Stmt}

theorem le (h : Image n ss ts n') : n ≤ n' := by
  induction h with
  | nil n => exact Nat.le_refl n
  | assign _ ih => exact ih
  | loop _ _ ihb ihr => omega

theorem mem_names_iff (h : Image n ss ts n') {x : String} :
    x ∈ Stmt.namesOfBlock ts ↔ x ∈ Stmt.namesOfBlock ss ∨ Fresh.IsVariable n n' x := by
  induction h with
  | nil n => exact ⟨.inl, fun hx => hx.resolve_right (Fresh.not_isVariable_self n x)⟩
  | assign _ ih => simp only [Stmt.namesOfBlock, Stmt.names, List.mem_append, ih, or_assoc]
  | loop hb hr ihb ihr =>
      simp only [Stmt.namesOfBlock, Stmt.names, Stmt.namesOfBlock_append, Condition.names,
        Expr.names, nonzero, decrement, List.mem_append, List.mem_cons, List.not_mem_nil, or_false,
        ihb, ihr, Fresh.isVariable_split hb.le hr.le]
      grind

/-- The counter of a loop does not occur in its compiled body. -/
theorem counter_not_mem_names {k : Nat} (h : Image (n + 1) ss ts k)
    (hn : Fresh.variableName n ∉ Stmt.namesOfBlock ss) :
    Fresh.variableName n ∉ Stmt.namesOfBlock ts := by
  rw [h.mem_names_iff, not_or]
  refine ⟨hn, ?_⟩
  rintro ⟨j, hle, _, hj⟩
  have := Fresh.variableName_injective hj
  omega

end Image

/-! ### Runs of compiled blocks -/

theorem eval_nonzero {s : Store} {t : String} {n : Int} (h : s.value t = n) :
    (nonzero t).eval s = .ok (decide (n ≠ 0)) :=
  Condition.eval_var_num h .ne 0

/-- A loop that has still to repeat its body `r` times, in `LOOP` and in the compiled block: the
counter `t` holds `r` whenever the condition is checked. -/
theorem exec_of_repeatTimes {hidden : List String} {body inner : List Stmt} {t : String}
    (hbody : ∀ {m m' μ : Memory}, (∀ x, 0 ≤ m.store.value x) → Loop.runBlock body m = .returned m' →
      m.AgreesBut hidden μ → ∃ k μ', While.Exec inner k μ μ' ∧ (k : Int) = Loop.checks body m ∧
        m'.AgreesBut hidden μ')
    (hlit : ∀ k ∈ Stmt.literalsOfBlock body, 0 ≤ k) (ht : t ∈ hidden)
    (hti : t ∉ Stmt.namesOfBlock inner) {r : Nat} {m m' μ : Memory}
    (hm : ∀ x, 0 ≤ m.store.value x)
    (hr : Loop.repeatTimes (Loop.runBlock body) r m = .returned m') (ha : m.AgreesBut hidden μ)
    (hv : μ.store.value t = r) :
    ∃ k μ', While.Exec [.whileDo (nonzero t) (inner ++ [decrement t])] k μ μ' ∧
      (k : Int) = r + 1 +
        Loop.charge (Loop.repeatEntries (Loop.runBlock body) (Loop.entriesOfBlock body) r m) ∧
      m'.AgreesBut hidden μ' := by
  induction r generalizing m μ with
  | zero =>
      obtain rfl := Outcome.returned.inj hr
      exact ⟨1, μ.count, .whileFalse (eval_nonzero hv) (.nil μ.count), rfl, ha.count_right⟩
  | succ r ih =>
      obtain ⟨m₁, h₁, h₂⟩ := Outcome.andThen_eq_returned_iff.mp hr
      obtain ⟨k₁, μ₁, hex, hk₁, ha₁⟩ := hbody hm h₁ ha.count_right
      have hfree : t ∉ μ₁.locked := ha₁.not_mem_locked t ht
      have hv₁ : μ₁.store.value t = r + 1 := by
        rw [Store.value, hex.get?_eq hti, Memory.store_count, ← Store.value, hv]
        rfl
      -- Counting down gives the number of repetitions that are left.
      have hdec : (Expr.binary (.var t) Arithmetic.sub.symbol (.num 1)).eval μ₁.store =
          .ok (r : Int) := by
        have hsub : Arithmetic.sub.apply (μ₁.store.value t) 1 = r := by
          rw [hv₁, Arithmetic.apply]
          omega
        rw [← hsub]
        rfl
      have hm₁ : ∀ x, 0 ≤ m₁.store.value x := Loop.value_nonneg_of_runBlock hlit hm h₁
      have hv₂ : (μ₁.assign t r).store.value t = r := Memory.value_assign_self hfree r
      have hcond : (nonzero t).eval μ.store = .ok true := by
        rw [eval_nonzero hv, decide_eq_true (by omega)]
      obtain ⟨k₂, μ₂, hex₂, hk₂, ha₂⟩ := ih hm₁ h₂ (ha₁.assign_hidden ht r) hv₂
      refine ⟨k₁ + 0 + k₂ + 1, μ₂, .whileTrue hcond (hex.append (.assign hdec (.nil _))) hex₂, ?_,
        ha₂⟩
      rw [Loop.repeatEntries, h₁, Loop.charge_append]
      unfold Loop.checks at hk₁
      push_cast
      omega

/-- A compiled block ends with the same values as the block, after as many checks as the loops
charge. -/
theorem exec_of_image {hidden : List String} {n n' : Nat} {ss ts : List Stmt}
    (h : Image n ss ts n') (hn : ∀ x ∈ Stmt.namesOfBlock ss, x ∉ hidden)
    (hd : ∀ x, Fresh.IsVariable n n' x → x ∈ hidden)
    (hlit : ∀ k ∈ Stmt.literalsOfBlock ss, 0 ≤ k) {m m' μ : Memory}
    (hm : ∀ x, 0 ≤ m.store.value x) (hr : Loop.runBlock ss m = .returned m')
    (ha : m.AgreesBut hidden μ) :
    ∃ k μ', While.Exec ts k μ μ' ∧ (k : Int) = Loop.checks ss m ∧ m'.AgreesBut hidden μ' := by
  induction h generalizing m m' μ with
  | nil n =>
      obtain rfl := Outcome.returned.inj hr
      exact ⟨0, μ, .nil μ, rfl, ha⟩
  | @assign x e _ _ _ _ _ ih =>
      obtain ⟨_, h₁, h₂⟩ := Outcome.andThen_eq_returned_iff.mp hr
      obtain ⟨v, hv, rfl⟩ := Memory.runAssign_eq_returned_iff.mp h₁
      have hv0 : 0 ≤ v := Expr.eval_nonneg hm (fun k hk => hlit k (List.mem_append_left _ hk)) hv
      have hx : x ∉ hidden := hn x List.mem_cons_self
      obtain ⟨k, μ', hex, hk, ha'⟩ := ih (fun x hx => hn x (List.mem_append_right _ hx)) hd
        (fun k hk => hlit k (List.mem_append_right _ hk)) (Memory.value_assign_nonneg hm hv0) h₂
        (ha.assign hx v)
      refine ⟨k, μ', .assign ?_ hex, ?_, ha'⟩
      · rw [← ha.eval_eq fun x hx => hn x (List.mem_append_left _ (List.mem_cons_of_mem _ hx)), hv]
      · rw [hk, Loop.checks_assign hv]
  | @loop v n k n' body inner rest ts hb hrest ihb ihr =>
      obtain ⟨m₁, h₁, h₂⟩ := Outcome.andThen_eq_returned_iff.mp hr
      have hsplit := Fresh.isVariable_split hb.le hrest.le
      have ht : Fresh.variableName n ∈ hidden := hd _ ((hsplit _).mpr (.inl rfl))
      have hbody : ∀ x ∈ Stmt.namesOfBlock body, x ∉ hidden := fun x hx =>
        hn x (List.mem_append_left _ (List.mem_cons_of_mem v hx))
      have hinner : Fresh.variableName n ∉ Stmt.namesOfBlock inner :=
        hb.counter_not_mem_names fun hx => hbody _ hx ht
      have hlitb : ∀ k ∈ Stmt.literalsOfBlock body, 0 ≤ k := fun k hk =>
        hlit k (List.mem_append_left _ hk)
      have hm₁ : ∀ x, 0 ≤ m₁.store.value x :=
        Loop.invariant_of_repeatTimes (P := fun m => ∀ x, 0 ≤ m.store.value x)
          (fun _ _ => Loop.value_nonneg_of_runBlock hlitb) hm h₁
      have hv : (μ.assign (Fresh.variableName n) (μ.store.value v)).store.value
          (Fresh.variableName n) = (m.store.value v).toNat := by
        rw [Memory.value_assign_self (ha.not_mem_locked _ ht),
          Int.toNat_of_nonneg (hm v), ha.store.value_eq (hn v List.mem_cons_self)]
      obtain ⟨k₁, μ₁, hex₁, hk₁, ha₁⟩ := exec_of_repeatTimes
        (ihb hbody (fun x hx => hd x ((hsplit x).mpr (.inr (.inl hx)))) hlitb) hlitb ht hinner hm
        h₁ (ha.assign_hidden ht _) hv
      obtain ⟨k₂, μ₂, hex₂, hk₂, ha₂⟩ := ihr (fun x hx => hn x (List.mem_append_right _ hx))
        (fun x hx => hd x ((hsplit x).mpr (.inr (.inr hx))))
        (fun k hk => hlit k (List.mem_append_right _ hk))
        hm₁ h₂ ha₁
      refine ⟨k₁ + k₂, μ₂, .assign rfl (hex₁.append hex₂), ?_, ha₂⟩
      rw [Loop.checks_loop h₁]
      have hv0 := hm v
      push_cast
      omega

/-! ### Compiled programs -/

/-- What compiling a LOOP program takes: an index above those in use, and an image from there on. -/
theorem image_of_loopToWhile {ss : List Stmt} {reserved : List String} {q : Program}
    (hq : (Program.loop ss).loopToWhile reserved = .ok q) :
    ∃ f ts n', Fresh.above ((Program.loop ss).names ++ reserved) = .ok f ∧ q = .whileDo ts ∧
      Image f.nextVariable ss ts n' := by
  unfold Program.loopToWhile attempt at hq
  split at hq
  · cases hq
  · next f hf =>
      split at hq
      · next ts g hts =>
          obtain rfl := Except.ok.inj hq
          exact ⟨f, ts, g.nextVariable, hf, rfl, image_of_compileBlock hts⟩
      · cases hq

theorem mem_newNames_iff {ss ts : List Stmt} {reserved : List String} {f : Fresh} {n' : Nat}
    (hf : Fresh.above ((Program.loop ss).names ++ reserved) = .ok f)
    (h : Image f.nextVariable ss ts n') {x : String} :
    x ∈ (Program.loop ss).newNames (.whileDo ts) ↔ Fresh.IsVariable f.nextVariable n' x := by
  rw [Program.mem_newNames]
  show x ∈ Stmt.namesOfBlock ts ∧ x ∉ Stmt.namesOfBlock ss ↔ _
  rw [h.mem_names_iff]
  constructor
  · rintro ⟨hx, hn⟩
    exact hx.resolve_left hn
  · intro hx
    exact ⟨.inr hx, fun hs => Fresh.not_mem_of_isVariable hf hx (List.mem_append_left _ hs)⟩

theorem not_mem_of_mem_newNames {ss : List Stmt} {reserved : List String} {q : Program}
    (hq : (Program.loop ss).loopToWhile reserved = .ok q) {x : String}
    (hx : x ∈ (Program.loop ss).newNames q) : x ∉ (Program.loop ss).names ++ reserved := by
  obtain ⟨f, ts, n', hf, rfl, himage⟩ := image_of_loopToWhile hq
  exact Fresh.not_mem_of_isVariable hf ((mem_newNames_iff hf himage).mp hx)

theorem exec_of_runBlock {ss ts : List Stmt} {reserved names : List String} {m m' : Memory}
    (hq : (Program.loop ss).loopToWhile reserved = .ok (.whileDo ts))
    (hlit : ∀ n ∈ Stmt.literalsOfBlock ss, 0 ≤ n) (hi : m.Initial names)
    (hb : ∀ x ∈ names, x ∈ reserved ∨ x ∈ (Program.loop ss).names)
    (hr : Loop.runBlock ss m = .returned m') :
    ∃ k μ', While.Exec ts k m μ' ∧ (k : Int) = Loop.checks ss m ∧
      m'.AgreesBut ((Program.loop ss).newNames (.whileDo ts)) μ' := by
  have hown : ∀ x ∈ Stmt.namesOfBlock ss, x ∉ (Program.loop ss).newNames (.whileDo ts) :=
    fun x hx hm => (Program.mem_newNames.mp hm).2 hx
  have ha := hi.agreesBut_of_new hb fun x hx => not_mem_of_mem_newNames hq hx
  obtain ⟨f, ts', n', hf, hts, himage⟩ := image_of_loopToWhile hq
  obtain rfl := Program.whileDo.inj hts
  exact exec_of_image himage hown (fun x hx => (mem_newNames_iff hf himage).mpr hx) hlit
    hi.value_nonneg hr ha

theorem onlyRaises_freshVariable : EStateM.OnlyRaises CompileError.IsNumeral freshVariable := by
  intro f e g h
  unfold freshVariable at h
  split at h
  · cases h
  · next n _ =>
      cases h
      exact ⟨n, rfl⟩

/-- Compiling a block fails only if an index is too long. -/
theorem onlyRaises_compileBlock {ss : List Stmt} (hs : Loop.Block ss) :
    EStateM.OnlyRaises CompileError.IsNumeral (compileBlock ss) := by
  induction hs with
  | nil => exact .pure []
  | assign he _ ih =>
      rw [compileBlock, compileStmt, he.admitted]
      refine .bind (.bind (fun _ _ _ h => nomatch h) fun _ => .pure _) fun _ => ?_
      exact .bind ih fun _ => .pure _
  | loop _ _ ihb ihr =>
      rw [compileBlock, compileStmt]
      refine .bind (.bind onlyRaises_freshVariable fun _ => ?_) fun _ => .bind ihr fun _ => .pure _
      exact .bind ihb fun _ => .pure _

theorem isNumeral_of_loopToWhile {ss : List Stmt} (hs : Loop.Block ss) {reserved : List String}
    {e : CompileError} (h : (Program.loop ss).loopToWhile reserved = .error e) : e.IsNumeral := by
  unfold Program.loopToWhile attempt at h
  split at h
  · next n _ => exact ⟨n, (Except.error.inj h).symm⟩
  · split at h
    · cases h
    · next hc =>
        obtain rfl := Except.error.inj h
        exact onlyRaises_compileBlock hs _ _ _ hc

end LoopToWhile

/-- What the loops entered in an evaluation of a LOOP program charge. -/
def Loop.evaluationChecks (ss : List Stmt) (inputs : Inputs) : Int :=
  checks ss (Memory.bindAll inputs .empty).state

/-- LOOP programs keep their meaning as WHILE programs.  The compiled program checks conditions as
often as the loops charge; within the limit it ends with the same values, beyond it it is stopped.
It exists unless an index is too long. -/
theorem LoopToWhile.evaluate_loopToWhile {ss : List Stmt} (hs : Loop.Block ss)
    (hlit : ∀ n ∈ Stmt.literalsOfBlock ss, 0 ≤ n) {reserved : List String}
    {pairs : List (String × Nat)}
    (hnames : ∀ x ∈ (Inputs.ofNaturals pairs).names,
      x ∈ reserved ∨ x ∈ (Program.loop ss).names) (s₁ s₂ : Machine) :
    (∀ e, (Program.loop ss).loopToWhile reserved = .error e → e.IsNumeral) ∧
    ∃ t₁, s₁.evaluate .loop (.loop ss) (.ofNaturals pairs) = .returned t₁ ∧
      ∀ q, (Program.loop ss).loopToWhile reserved = .ok q →
        (Loop.evaluationChecks ss (.ofNaturals pairs) ≤ stepLimit →
          ∃ t₂, s₂.evaluate .whileDo q (.ofNaturals pairs) = .returned t₂ ∧
            (t₂.memory.steps : Int) = Loop.evaluationChecks ss (.ofNaturals pairs) ∧
            t₁.memory.store.IsWithout ((Program.loop ss).newNames q) t₂.memory.store) ∧
        (stepLimit < Loop.evaluationChecks ss (.ofNaturals pairs) →
          ∃ t₂, s₂.evaluate .whileDo q (.ofNaturals pairs) = .raised .stepLimit t₂) := by
  obtain ⟨m, hm, hi⟩ := Memory.bindAll_ofNaturals pairs
  obtain ⟨m', hr⟩ := Loop.runBlock_returned hs m
  have hchecks : Loop.evaluationChecks ss (.ofNaturals pairs) = Loop.checks ss m := by
    rw [Loop.evaluationChecks, hm]
    rfl
  refine ⟨fun e he => LoopToWhile.isNumeral_of_loopToWhile hs he, { s₁ with memory := m' }, ?_, ?_⟩
  · rw [Machine.evaluate_loop hm, hr]
    rfl
  · intro q hq
    obtain ⟨_, ts, _, _, rfl, _⟩ := LoopToWhile.image_of_loopToWhile hq
    obtain ⟨k, μ', hex, hk, ha⟩ := LoopToWhile.exec_of_runBlock hq hlit hi hnames hr
    have hsteps := hex.steps_eq
    rw [hi.steps, Nat.zero_add] at hsteps
    rw [hchecks, ← hk, Machine.evaluate_whileDo hm]
    refine ⟨fun hle => ⟨{ s₂ with memory := μ' }, ?_, ?_, ha.store⟩, fun hlt => ?_⟩
    · rw [While.runBlock_of_exec hex (by rw [hi.steps]; omega)]
      rfl
    · show (μ'.steps : Int) = k
      rw [hsteps]
    · obtain ⟨m₁, hm₁, _⟩ :=
        While.runBlock_of_exec_of_lt hex (by rw [hi.steps]; omega) (by rw [hi.steps]; omega)
      refine ⟨{ s₂ with memory := m₁ }, ?_⟩
      rw [hm₁]
      rfl

/-- A loop that changes its own counter, and so that of the loop inside it. -/
def LoopToWhile.growing : List Stmt :=
  [.loop "a"
    [.assign "a" (.binary (.var "a") Arithmetic.add.symbol (.num 1)),
      .loop "a" [.assign "y" (.binary (.var "y") Arithmetic.add.symbol (.var "a"))]]]

/-- The first assignment to `a` only takes its lock away, so the inner loop is entered at `2` and
at `3`. -/
theorem LoopToWhile.evaluate_loopToWhile_growing :
    ∃ q t₁ t₂, (Program.loop growing).loopToWhile ["z"] = .ok q ∧
      Machine.empty.evaluate .loop (.loop growing) (.ofNaturals [("a", 2), ("z", 5)]) =
        .returned t₁ ∧
      Machine.empty.evaluate .whileDo q (.ofNaturals [("a", 2), ("z", 5)]) = .returned t₂ ∧
      (t₂.memory.steps : Int) = 10 ∧
      t₁.memory.store.IsWithout ((Program.loop growing).newNames q) t₂.memory.store := by
  have hs : Loop.Block growing :=
    .loop (.assign ⟨trivial, ⟨.add, rfl⟩, trivial⟩
      (.loop (.assign ⟨trivial, ⟨.add, rfl⟩, trivial⟩ .nil) .nil)) .nil
  have hc : Loop.evaluationChecks growing (.ofNaturals [("a", 2), ("z", 5)]) = 10 := by decide
  have hn : ∀ x ∈ (Inputs.ofNaturals [("a", 2), ("z", 5)]).names,
      x ∈ ["z"] ∨ x ∈ (Program.loop growing).names := by
    decide
  obtain ⟨_, t₁, h₁, h⟩ := LoopToWhile.evaluate_loopToWhile hs (by decide) hn .empty .empty
  obtain ⟨q, hq, _⟩ : ∃ q, (Program.loop growing).loopToWhile ["z"] = .ok q ∧ true = true :=
    Except.exists_of_any (by decide +kernel)
  obtain ⟨t₂, h₂, hsteps, hw⟩ := (h q hq).1 (by rw [hc]; decide)
  exact ⟨q, t₁, t₂, hq, h₁, h₂, by rw [hsteps, hc], hw⟩

end CounterPrograms
