import CounterPrograms.Proofs.Compile.GotoToWhile
import CounterPrograms.Proofs.Compile.LoopToWhile
import CounterPrograms.Proofs.Compile.WhileToGoto.Emission
import CounterPrograms.Proofs.Program.Literals
import CounterPrograms.Proofs.Program.Proper

/-!
# Sound programs

A program is sound if it is made of the statements of its language, all its operators have a
meaning, and no negative number is written in it (`Program.Sound`).  Whatever is read from a text is
sound, and compilations keep programs sound, however many of them come one after the other
(`Program.Obtained.sound`).
-/

namespace CounterPrograms

/-- The program is one of its language, made of proper expressions and conditions. -/
inductive Program.Proper : Language → Program → Prop
  | loop {ss : List Stmt} : Loop.Block ss → Proper .loop (.loop ss)
  | whileDo {ss : List Stmt} : While.Block ss → Proper .whileDo (.whileDo ss)
  | goto {is : List Instruction} :
      (∀ i ∈ is, Machine.Executable i.statement) → Proper .goto (.goto is)

/-- A proper program in which no negative number is written. -/
structure Program.Sound (l : Language) (p : Program) : Prop where
  proper : p.Proper l
  nonneg : ∀ n ∈ p.literals, 0 ≤ n

theorem Program.WellFormed.sound {l : Language} {p : Program} (h : p.WellFormed l) :
    p.Sound l := by
  refine ⟨?_, h.nonneg⟩
  cases p with
  | loop ss =>
      obtain ⟨rfl, hss⟩ := h
      exact .loop (Loop.block_of_wellFormed hss)
  | whileDo ss =>
      obtain ⟨rfl, hss⟩ := h
      exact .whileDo (While.block_of_wellFormed hss)
  | goto is =>
      obtain ⟨rfl, his⟩ := h
      exact .goto fun i hi => (his i hi).executable

/-! ### LOOP programs -/

namespace LoopToWhile

variable {n n' : Nat} {ss ts : List Stmt}

theorem block_decrement (t : String) : While.Block [decrement t] :=
  .assign ⟨trivial, ⟨.sub, rfl⟩, trivial⟩ .nil

theorem Image.block (h : Image n ss ts n') (hs : Loop.Block ss) : While.Block ts := by
  induction h with
  | nil n => exact .nil
  | assign _ ih =>
      cases hs with
      | assign he hr => exact .assign he (ih hr)
  | @loop v n _ _ _ _ _ _ _ _ ihb ihr =>
      cases hs with
      | loop hb hr =>
          have hbody := (ihb hb).append (block_decrement (Fresh.variableName n))
          exact .assign trivial (.whileDo ⟨trivial, ⟨.ne, rfl⟩, trivial⟩ hbody (ihr hr))

theorem Image.nonneg (h : Image n ss ts n') (hs : ∀ k ∈ Stmt.literalsOfBlock ss, 0 ≤ k) :
    ∀ k ∈ Stmt.literalsOfBlock ts, 0 ≤ k := by
  induction h with
  | nil n => exact hs
  | assign _ ih =>
      obtain ⟨hfirst, hrest⟩ := List.forall_mem_append.mp hs
      exact List.forall_mem_append.mpr ⟨hfirst, ih hrest⟩
  | loop _ _ ihb ihr =>
      obtain ⟨hbody, hrest⟩ := List.forall_mem_append.mp hs
      have hinner := ihb hbody
      have hts := ihr hrest
      simpa [Stmt.literalsOfBlock, Stmt.literals, Stmt.literalsOfBlock_append, nonzero, decrement,
        Condition.literals, Expr.literals, or_imp, forall_and] using And.intro hinner hts

theorem sound_of_loopToWhile {p q : Program} {reserved : List String} (hp : p.Sound .loop)
    (hq : p.loopToWhile reserved = .ok q) : q.Sound .whileDo := by
  obtain ⟨hproper, hnonneg⟩ := hp
  cases hproper with
  | loop hs =>
      obtain ⟨f, ts, n', _, rfl, himage⟩ := image_of_loopToWhile hq
      exact ⟨.whileDo (himage.block hs), himage.nonneg hnonneg⟩

end LoopToWhile

/-! ### WHILE programs -/

namespace WhileToGoto

theorem literals_of_negated {c c' : Condition} (h : negated c = .ok c') :
    c'.literals = c.literals := by
  obtain ⟨o, _, rfl⟩ := exists_of_negated h
  rfl

theorem mem_literals_loopCode {exit : Condition} {d : String} {n : Nat}
    {inner is : List Instruction} {k : Int} :
    k ∈ (Program.goto (loopCode exit d n inner is)).literals ↔
      k ∈ exit.literals ∨ k ∈ (Program.goto inner).literals ∨ k = 0 ∨
        k ∈ (Program.goto is).literals := by
  simp [Program.literals, loopCode, idle, Stmt.literalsOfBlock, Stmt.literalsOfBlock_append,
    Stmt.literals, Expr.literals]

theorem mem_literals_branchCode {exit : Condition} {d : String} {n : Nat}
    {inner alternative is : List Instruction} {k : Int} :
    k ∈ (Program.goto (branchCode exit d n inner alternative is)).literals ↔
      k ∈ exit.literals ∨ k ∈ (Program.goto inner).literals ∨
        k ∈ (Program.goto alternative).literals ∨ k = 0 ∨ k ∈ (Program.goto is).literals := by
  simp [Program.literals, branchCode, idle, Stmt.literalsOfBlock, Stmt.literalsOfBlock_append,
    Stmt.literals, Expr.literals]

theorem mem_literals_append_halt {is : List Instruction} {k : Int} :
    k ∈ (Program.goto (is ++ [⟨.halt, none⟩])).literals ↔ k ∈ (Program.goto is).literals := by
  simp [Program.literals, Stmt.literalsOfBlock, Stmt.literalsOfBlock_append, Stmt.literals]

theorem Begins.nonneg {hidden : List String} {label : String} {is js : List Instruction}
    (h : Begins hidden label is js) (his : ∀ k ∈ (Program.goto is).literals, 0 ≤ k) :
    ∀ k ∈ (Program.goto js).literals, 0 ≤ k := by
  cases h with
  | relabelled => exact his
  | idle _ =>
      exact List.forall_mem_append.mpr ⟨List.forall_mem_singleton.mpr (Int.le_refl 0), his⟩

theorem Image.nonneg {hidden : List String} {n n' : Nat} {ss : List Stmt} {is : List Instruction}
    (h : Image hidden n ss is n') (hs : ∀ k ∈ Stmt.literalsOfBlock ss, 0 ≤ k) :
    ∀ k ∈ (Program.goto is).literals, 0 ≤ k := by
  induction h with
  | nil n => exact hs
  | assign _ ih =>
      obtain ⟨hfirst, hrest⟩ := List.forall_mem_append.mp hs
      exact List.forall_mem_append.mpr ⟨hfirst, ih hrest⟩
  | whileDo hneg _ _ _ ihb ihr =>
      simp only [Stmt.literalsOfBlock, Stmt.literals, List.forall_mem_append] at hs
      obtain ⟨⟨hcond, hbody⟩, hrest⟩ := hs
      intro k hk
      rw [mem_literals_loopCode, literals_of_negated hneg] at hk
      rcases hk with hk | hk | rfl | hk
      · exact hcond k hk
      · exact ihb hbody k hk
      · exact Int.le_refl 0
      · exact ihr hrest k hk
  | ifThen hneg _ _ _ hbegin _ iht ihe ihr =>
      simp only [Stmt.literalsOfBlock, List.mem_append, Stmt.mem_literals_ifThen_iff, or_imp,
        forall_and] at hs
      obtain ⟨⟨hcond, hthen, helse⟩, hrest⟩ := hs
      intro k hk
      rw [mem_literals_branchCode, literals_of_negated hneg] at hk
      rcases hk with hk | hk | hk | rfl | hk
      · exact hcond k hk
      · exact iht hthen k hk
      · exact hbegin.nonneg (ihe helse) k hk
      · exact Int.le_refl 0
      · exact ihr hrest k hk

theorem sound_of_whileToGoto {p q : Program} {reserved : List String} (hp : p.Sound .whileDo)
    (hq : p.whileToGoto reserved = .ok q) : q.Sound .goto := by
  obtain ⟨hproper, hnonneg⟩ := hp
  cases hproper with
  | whileDo hs =>
      obtain ⟨is, n', rfl, himage, _⟩ := image_of_whileToGoto hq
      refine ⟨.goto ?_, fun k hk => himage.nonneg hnonneg k (mem_literals_append_halt.mp hk)⟩
      rw [List.forall_mem_append, List.forall_mem_singleton]
      exact ⟨fun i hi => ⟨_, himage.closed hs (fun _ hl => hl) i hi⟩, [], .halt⟩

end WhileToGoto

/-! ### GOTO programs -/

namespace GotoToWhile

variable {c : String} {is : List Instruction}

/-- The effect of an instruction is a block that sets the counter to a natural number. -/
theorem sound_of_effect {l : Layout} {position : Nat} {st : Stmt} {effect : List Stmt}
    (hst : Machine.Executable st) (hnonneg : ∀ k ∈ st.literals, 0 ≤ k)
    (h : l.effect position st = .ok effect) :
    While.Block effect ∧ ∀ k ∈ Stmt.literalsOfBlock effect, 0 ≤ k := by
  have hmove : ∀ target, While.Block [l.moveTo target] ∧
      ∀ k ∈ Stmt.literalsOfBlock [l.moveTo target], 0 ≤ k := by
    intro target
    refine ⟨.assign trivial .nil, ?_⟩
    simp [Stmt.literalsOfBlock, Stmt.literals, Layout.moveTo, Expr.literals]
  obtain ⟨_, hclosed⟩ := hst
  cases hclosed with
  | assign he =>
      obtain ⟨e, hadmit, h⟩ := Except.bind_eq_ok_iff.mp h
      obtain rfl := Except.pure_eq_ok_iff.mp h
      obtain rfl := Expr.eq_of_admitted hadmit
      obtain ⟨hblock, hmoves⟩ := hmove (l.following position)
      exact ⟨.assign he hblock, List.forall_mem_append.mpr ⟨hnonneg, hmoves⟩⟩
  | goto _ =>
      obtain ⟨target, _, h⟩ := Except.bind_eq_ok_iff.mp h
      obtain rfl := Except.pure_eq_ok_iff.mp h
      exact hmove target
  | ifGoto hc _ =>
      obtain ⟨c, hadmit, h⟩ := Except.bind_eq_ok_iff.mp h
      obtain ⟨target, _, h⟩ := Except.bind_eq_ok_iff.mp h
      obtain rfl := Except.pure_eq_ok_iff.mp h
      obtain rfl := Condition.eq_of_admitted hadmit
      obtain ⟨hthen, hthen'⟩ := hmove target
      obtain ⟨helse, helse'⟩ := hmove (l.following position)
      refine ⟨.ifElse hc hthen helse .nil, ?_⟩
      simp only [Stmt.literalsOfBlock, Stmt.literals, List.forall_mem_append] at *
      exact ⟨⟨⟨hnonneg, hthen'⟩, helse'⟩, List.forall_mem_nil _⟩
  | halt =>
      obtain rfl := Except.pure_eq_ok_iff.mp h
      exact hmove 0

theorem sound_of_dispatches {body : List Stmt} (h : Dispatches c is body)
    (his : ∀ i ∈ is, Machine.Executable i.statement)
    (hnonneg : ∀ k ∈ (Program.goto is).literals, 0 ≤ k) :
    While.Block body ∧ ∀ k ∈ Stmt.literalsOfBlock body, 0 ≤ k := by
  have hcase : ∀ s ∈ body, While.Block [s] ∧ ∀ k ∈ s.literals, 0 ≤ k := by
    intro s hs
    obtain ⟨j, hj⟩ := List.mem_iff_getElem?.mp hs
    have hlt : j < is.length := by
      rw [← h.length]
      exact (List.getElem?_eq_some_iff.mp hj).1
    have hmem : is[j] ∈ is := List.getElem_mem hlt
    obtain ⟨effect, heff, hs'⟩ := h.get j _ (List.getElem?_eq_getElem hlt)
    obtain rfl := Option.some.inj (hj.symm.trans hs')
    have hi : ∀ k ∈ is[j].statement.literals, 0 ≤ k := fun k hk =>
      hnonneg k (Stmt.mem_literalsOfBlock_iff.mpr ⟨_, List.mem_map_of_mem hmem, hk⟩)
    obtain ⟨hblock, heffect⟩ := sound_of_effect (his _ hmem) hi heff
    have hat : ∀ k ∈ ((layout c is).isAt (j + 1)).literals, 0 ≤ k := by
      intro k hk
      obtain rfl : k = j + 1 := by
        simpa [Layout.isAt, Condition.literals, Expr.literals] using hk
      omega
    exact ⟨.ifThen ⟨trivial, ⟨.eq, rfl⟩, trivial⟩ hblock .nil,
      List.forall_mem_append.mpr ⟨hat, heffect⟩⟩
  refine ⟨.of_forall fun s hs => (hcase s hs).1, fun k hk => ?_⟩
  obtain ⟨s, hs, hk⟩ := Stmt.mem_literalsOfBlock_iff.mp hk
  exact (hcase s hs).2 k hk

theorem sound_of_gotoToWhile {p q : Program} {reserved : List String} (hp : p.Sound .goto)
    (hq : p.gotoToWhile reserved = .ok q) : q.Sound .whileDo := by
  obtain ⟨hproper, hnonneg⟩ := hp
  cases hproper with
  | goto his =>
      rcases simulation_of_gotoToWhile hq with ⟨_, rfl, _⟩ | ⟨_, c, body, _, _, hd, rfl, _, _⟩
      · exact ⟨.whileDo .nil, nofun⟩
      · obtain ⟨hblock, hbody⟩ := sound_of_dispatches hd his hnonneg
        refine ⟨.whileDo (.assign trivial (.whileDo ⟨trivial, ⟨.ne, rfl⟩, trivial⟩ hblock .nil)), ?_⟩
        simpa [Program.literals, simulationCode, dispatchLoop, Layout.moveTo, Stmt.literalsOfBlock,
          Stmt.literals, Condition.literals, Expr.literals] using hbody

end GotoToWhile

/-! ### All programs there are -/

namespace Program

/-- Every compilation makes a sound program of a sound one. -/
theorem sound_of_compile {l l' : Language} {p q : Program} {reserved : List String}
    (hp : p.Sound l) (hq : p.compile l l' reserved = .ok q) : q.Sound l' := by
  unfold compile at hq
  split at hq
  · exact LoopToWhile.sound_of_loopToWhile hp hq
  · exact WhileToGoto.sound_of_whileToGoto hp hq
  · exact GotoToWhile.sound_of_gotoToWhile hp hq
  · obtain ⟨r, hr, hq⟩ := Except.bind_eq_ok_iff.mp hq
    exact WhileToGoto.sound_of_whileToGoto (LoopToWhile.sound_of_loopToWhile hp hr) hq
  · cases hq

/-- The programs of a language that are read from a text, or compiled from programs obtained
before. -/
inductive Obtained : Language → Program → Prop
  | read {l : Language} {text : String} {p : Program} : parse l text = .ok p → Obtained l p
  | compiled {l l' : Language} {p q : Program} {reserved : List String} :
      Obtained l p → p.compile l l' reserved = .ok q → Obtained l' q

theorem Obtained.sound {l : Language} {p : Program} (h : Obtained l p) : p.Sound l := by
  induction h with
  | read hp => exact (wellFormed_of_parse hp).sound
  | compiled _ hq ih => exact sound_of_compile ih hq

end Program

end CounterPrograms
