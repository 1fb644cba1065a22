import CounterPrograms.Proofs.Compile.Sound
import CounterPrograms.Proofs.Labels.Agreement

/-!
# The labels of compiled WHILE programs

Two labels are drawn for every WHILE and IF of a block (`WhileToGoto.Image.eq_add_countP`), and each
of them is carried by one instruction and is the target of one jump
(`WhileToGoto.Image.names_perm`, `WhileToGoto.Image.targets_perm`), however the statements are
nested.  The only `HALT` is the one behind the image (`WhileToGoto.Image.ne_halt`).

So nothing is wrong with the labels of a compiled program, and it compiles back
(`Program.labels_whileToGoto`).  A program compiles in the first place as long as the index of its
idle variable can be written (`WhileToGoto.exists_whileToGoto`).
-/

namespace CounterPrograms

/-- The number of the WHILE and IF statements of a program. -/
def Program.conditionalCount (p : Program) : Nat :=
  (Stmt.partsOfBlock p.statements).countP Stmt.isConditional

namespace WhileToGoto

variable {hidden : List String} {n n' : Nat} {ss : List Stmt} {is : List Instruction}

/-! ### Labels that are drawn -/

/-- Two labels are drawn for each condition. -/
theorem Image.eq_add_countP (h : Image hidden n ss is n') :
    n' = n + 2 * (Stmt.partsOfBlock ss).countP Stmt.isConditional := by
  induction h with
  | nil n => rfl
  | assign _ ih => exact ih
  | @whileDo c _ _ n k n' body rest _ _ _ _ _ _ ihb ihr =>
      have hcount : (Stmt.partsOfBlock (.whileDo c body :: rest)).countP Stmt.isConditional =
          (Stmt.partsOfBlock body).countP Stmt.isConditional + 1 +
            (Stmt.partsOfBlock rest).countP Stmt.isConditional := by
        rw [Stmt.partsOfBlock, List.countP_append, Stmt.parts, List.countP_cons]
        rfl
      omega
  | @ifThen c _ _ n k l n' t rest e _ _ _ _ _ _ _ _ _ _ iht ihe ihr =>
      have hcount : (Stmt.partsOfBlock (.ifThen c t e :: rest)).countP Stmt.isConditional =
          (Stmt.partsOfBlock t).countP Stmt.isConditional +
            (Stmt.partsOfBlock (e.getD [])).countP Stmt.isConditional + 1 +
            (Stmt.partsOfBlock rest).countP Stmt.isConditional := by
        cases e <;>
          simp [Stmt.partsOfBlock, Stmt.parts, List.countP_cons, Stmt.isConditional] <;> omega
      omega

/-! ### Jumps -/

theorem targets_loopCode (exit : Condition) (d : String) (n : Nat) (inner is : List Instruction) :
    Labels.targets (loopCode exit d n inner is) =
      Fresh.labelName (n + 1) ::
        (Labels.targets inner ++ Fresh.labelName n :: Labels.targets is) := by
  simp [loopCode, idle, Labels.targets_cons, Labels.targets_append, Stmt.jumpTarget?]

theorem targets_branchCode (exit : Condition) (d : String) (n : Nat)
    (inner alternative is : List Instruction) :
    Labels.targets (branchCode exit d n inner alternative is) =
      Fresh.labelName n :: (Labels.targets inner ++ Fresh.labelName (n + 1) ::
        (Labels.targets alternative ++ Labels.targets is)) := by
  simp [branchCode, idle, Labels.targets_cons, Labels.targets_append, Stmt.jumpTarget?]

theorem Begins.targets_eq {label : String} {js : List Instruction}
    (h : Begins hidden label is js) : Labels.targets js = Labels.targets is := by
  cases h with
  | relabelled => simp [Labels.targets_cons]
  | idle _ => simp [WhileToGoto.idle, Labels.targets_cons, Stmt.jumpTarget?]

/-- The jumps of an image go to the labels drawn for it, one to each. -/
theorem Image.targets_perm (h : Image hidden n ss is n') :
    (Labels.targets is).Perm (Fresh.labels n n') := by
  induction h with
  | nil n =>
      rw [Fresh.labels_self]
      exact .refl []
  | assign _ ih => simpa [Labels.targets_cons, Stmt.jumpTarget?] using ih
  | whileDo _ _ hb hr ihb ihr =>
      have hb' := hb.le
      have hr' := hr.le
      rw [Fresh.labels_eq_cons (by omega), Fresh.labels_eq_cons (by omega),
        ← Fresh.labels_append hb' hr', targets_loopCode]
      exact ((List.perm_middle.trans ((ihb.append ihr).cons _)).cons _).trans (.swap _ _ _)
  | ifThen _ _ ht he hbegin hr iht ihe ihr =>
      have ht' := ht.le
      have he' := he.le
      have hr' := hr.le
      rw [Fresh.labels_eq_cons (by omega), Fresh.labels_eq_cons (by omega),
        ← Fresh.labels_append ht' (by omega), ← Fresh.labels_append he' hr', targets_branchCode,
        hbegin.targets_eq]
      exact (List.perm_middle.trans ((iht.append (ihe.append ihr)).cons _)).cons _

theorem Begins.ne_halt {label : String} {js : List Instruction} (h : Begins hidden label is js)
    (his : ∀ i ∈ is, i.statement ≠ .halt) : ∀ i ∈ js, i.statement ≠ .halt := by
  cases h with
  | relabelled =>
      rw [List.forall_mem_cons] at his ⊢
      exact his
  | idle _ => exact List.forall_mem_cons.mpr ⟨Stmt.noConfusion, his⟩

theorem Image.ne_halt (h : Image hidden n ss is n') : ∀ i ∈ is, i.statement ≠ .halt := by
  induction h with
  | nil n => exact List.forall_mem_nil _
  | assign _ ih => exact List.forall_mem_cons.mpr ⟨Stmt.noConfusion, ih⟩
  | whileDo _ _ _ _ ihb ihr =>
      simp only [loopCode, idle, List.forall_mem_cons, List.forall_mem_append]
      exact ⟨Stmt.noConfusion, ihb, Stmt.noConfusion, Stmt.noConfusion, ihr⟩
  | ifThen _ _ _ _ hbegin _ iht ihe ihr =>
      have halternative := hbegin.ne_halt ihe
      simp only [branchCode, idle, List.forall_mem_cons, List.forall_mem_append]
      exact ⟨Stmt.noConfusion, iht, Stmt.noConfusion, halternative, Stmt.noConfusion, ihr⟩

/-! ### Programs compile -/

/-- There is an idle variable, or one can be drawn. -/
def Supply.Ready (s : Supply) : Prop :=
  s.idle ≠ none ∨ s.fresh.nextVariable < Numeral.bound

theorem succeeds_freshLabel : EStateM.Succeeds Supply.Ready freshLabel :=
  fun s hs => ⟨s.fresh.newLabel.1, { s with fresh := s.fresh.newLabel.2 }, rfl, hs⟩

theorem succeeds_idleVariable : EStateM.Succeeds Supply.Ready idleVariable := by
  rintro ⟨f, idle⟩ hs
  unfold idleVariable
  cases idle with
  | some d => exact ⟨d, ⟨f, some d⟩, rfl, .inl (Option.some_ne_none d)⟩
  | none =>
      have hlt : f.nextVariable < Numeral.bound := hs.resolve_left fun h => h rfl
      simp only [Fresh.newVariable_of_lt hlt]
      exact ⟨_, _, rfl, .inl (Option.some_ne_none _)⟩

theorem succeeds_idleAt (label : String) : EStateM.Succeeds Supply.Ready (idleAt label) :=
  succeeds_idleVariable.bind fun _ => .pure _

theorem succeeds_labelled (label : String) (is : List Instruction) :
    EStateM.Succeeds Supply.Ready (labelled label is) := by
  unfold labelled
  split
  · exact .pure _
  · exact (succeeds_idleAt label).bind fun _ => .pure _

theorem succeeds_lift {α : Type} {x : Except CompileError α} {a : α} (h : x = .ok a) :
    EStateM.Succeeds Supply.Ready (lift x) :=
  fun s hs => ⟨a, s, lift_eq_ok_iff.mpr ⟨h, rfl⟩, hs⟩

theorem succeeds_ifThen {c : Condition} {t : List Stmt} {e : Option (List Stmt)} (hc : c.Proper)
    (ht : EStateM.Succeeds Supply.Ready (compileBlock t))
    (he : EStateM.Succeeds Supply.Ready (compileBlock (e.getD []))) :
    EStateM.Succeeds Supply.Ready (compileStmt (.ifThen c t e)) := by
  obtain ⟨exit, hexit, _⟩ := negated_of_proper hc
  rw [compileStmt_ifThen, compileStmt]
  refine .bind succeeds_freshLabel fun other => .bind succeeds_freshLabel fun stop => ?_
  refine .bind (succeeds_lift hexit) fun _ => .bind ht fun _ => .bind he fun outer => ?_
  refine .bind (succeeds_labelled other outer) fun _ => ?_
  exact .bind (succeeds_idleAt stop) fun _ => .pure _

/-- Every block compiles if an idle variable can be had. -/
theorem succeeds_compileBlock (hs : While.Block ss) :
    EStateM.Succeeds Supply.Ready (compileBlock ss) := by
  induction hs with
  | nil => exact .pure []
  | assign he _ ih =>
      rw [compileBlock, compileStmt]
      refine .bind (.bind (succeeds_lift he.admitted) fun _ => .pure _) fun _ => ?_
      exact .bind ih fun _ => .pure _
  | whileDo hc _ _ ihb ihr =>
      obtain ⟨exit, hexit, _⟩ := negated_of_proper hc
      rw [compileBlock, compileStmt]
      refine .bind ?_ fun _ => .bind ihr fun _ => .pure _
      refine .bind succeeds_freshLabel fun start => .bind succeeds_freshLabel fun stop => ?_
      refine .bind (succeeds_lift hexit) fun _ => .bind ihb fun _ => ?_
      exact .bind (succeeds_idleAt stop) fun _ => .pure _
  | ifThen hc _ _ iht ihr =>
      rw [compileBlock]
      exact .bind (succeeds_ifThen hc iht (.pure [])) fun _ => .bind ihr fun _ => .pure _
  | ifElse hc _ _ _ iht ihe ihr =>
      rw [compileBlock]
      exact .bind (succeeds_ifThen hc iht ihe) fun _ => .bind ihr fun _ => .pure _

theorem exists_whileToGoto (hs : While.Block ss) {reserved : List String}
    (hr : Names.Indexable ((Program.whileDo ss).names ++ reserved)) :
    ∃ q, (Program.whileDo ss).whileToGoto reserved = .ok q := by
  obtain ⟨f, hf, hlt⟩ := Fresh.above_of_indexable hr
  obtain ⟨is, u, hcompile, _⟩ := succeeds_compileBlock hs ⟨f, none⟩ (.inr hlt)
  refine ⟨.goto (is ++ [⟨.halt, none⟩]), ?_⟩
  unfold Program.whileToGoto attempt
  simp only [hf, Program.statements, hcompile]

end WhileToGoto

/-! ### Labels of programs -/

namespace Program

/-- The labels of a WHILE program with `k` conditions that is compiled to GOTO: the first `2 * k`
labels, each carried by one instruction, and the jumps go to these and leave none out.  The only
`HALT` is the last instruction, which carries no label.  So nothing is wrong with the labels, and
the program compiles back, whatever is reserved. -/
theorem labels_whileToGoto {text : String} {p : Program} (hp : parse .whileDo text = .ok p)
    (reserved : List String) :
    (Names.Indexable (p.names ++ reserved) → ∃ q, p.whileToGoto reserved = .ok q) ∧
    ∀ q, p.whileToGoto reserved = .ok q →
      (Labels.names q.instructions).Nodup ∧
      (∀ l, l ∈ Labels.names q.instructions ↔
        ∃ j, j < 2 * p.conditionalCount ∧ l = Fresh.labelName j) ∧
      (∀ l, l ∈ Labels.targets q.instructions ↔ l ∈ Labels.names q.instructions) ∧
      (∃ is, q = .goto (is ++ [⟨.halt, none⟩]) ∧ ∀ i ∈ is, i.statement ≠ .halt) ∧
      Labels.problems q.instructions = [] ∧
      ∀ reserved', Names.Indexable (q.names ++ reserved') → ∃ r, q.gotoToWhile reserved' = .ok r := by
  obtain ⟨ss, rfl, hs⟩ := block_of_parse_whileDo hp
  refine ⟨WhileToGoto.exists_whileToGoto hs, fun q hq => ?_⟩
  have hsound := WhileToGoto.sound_of_whileToGoto (wellFormed_of_parse hp).sound hq
  obtain ⟨is, n', rfl, himage, _⟩ := WhileToGoto.image_of_whileToGoto hq
  have hn' : n' = 2 * (Program.whileDo ss).conditionalCount := by
    rw [himage.eq_add_countP, Nat.zero_add]
    rfl
  have hnames : Labels.names (is ++ [⟨.halt, none⟩]) = Labels.names is := by simp
  have htargets : Labels.targets (is ++ [⟨.halt, none⟩]) = Labels.targets is := by
    simp [Labels.targets, Stmt.jumpTarget?]
  have hmem : ∀ l, l ∈ Labels.targets is ↔ l ∈ Labels.names is := fun l =>
    (himage.targets_perm.trans himage.names_perm.symm).mem_iff
  have hproblems : Labels.problems (is ++ [⟨.halt, none⟩]) = [] := by
    rw [Labels.problems_eq_nil_iff, hnames, htargets]
    exact ⟨himage.nodup, fun l hl => (hmem l).mp hl⟩
  have hexecutable : ∀ i ∈ is ++ [⟨.halt, none⟩], Machine.Executable i.statement := by
    cases hsound.proper with
    | goto his => exact his
  rw [instructions, hnames, htargets]
  refine ⟨himage.nodup, fun l => ?_, hmem, ⟨is, rfl, himage.ne_halt⟩, hproblems,
    fun reserved' hr => GotoToWhile.exists_gotoToWhile hexecutable hr hproblems⟩
  rw [himage.names_perm.mem_iff, Fresh.mem_labels, hn']
  simp

/-- An alternative that begins with a loop, whose label is taken, and one that is empty. -/
theorem labels_whileToGoto_nested :
    ∃ p q r, parse .whileDo ("WHILE a != 0 DO IF b < a THEN ELSE WHILE c > 0 DO c := c - 1; END " ++
        "END IF b = 0 THEN b := 1; END a := a - 1; END") = .ok p ∧
      p.whileToGoto ["x2"] = .ok q ∧
      Labels.names q.instructions = ["M0", "M2", "M4", "M5", "M3", "M6", "M7", "M1"] ∧
      Labels.problems q.instructions = [] ∧ q.gotoToWhile ["x9"] = .ok r := by
  obtain ⟨p, hp, h⟩ : ∃ p,
      parse .whileDo ("WHILE a != 0 DO IF b < a THEN ELSE WHILE c > 0 DO c := c - 1; END " ++
        "END IF b = 0 THEN b := 1; END a := a - 1; END") = .ok p ∧
      (decide (Names.Indexable (p.names ++ ["x2"])) &&
        (p.whileToGoto ["x2"]).toOption.any fun q =>
          decide (Names.Indexable (q.names ++ ["x9"])) &&
            decide (Labels.names q.instructions =
              ["M0", "M2", "M4", "M5", "M3", "M6", "M7", "M1"])) = true :=
    Except.exists_of_any (by decide +kernel)
  simp only [Bool.and_eq_true, decide_eq_true_eq] at h
  obtain ⟨hp', h⟩ := h
  obtain ⟨q, hq⟩ := (labels_whileToGoto hp ["x2"]).1 hp'
  simp only [hq, Except.toOption, Option.any_some, Bool.and_eq_true, decide_eq_true_eq] at h
  obtain ⟨hr, hnames⟩ := h
  obtain ⟨_, _, _, _, hproblems, hback⟩ := (labels_whileToGoto hp ["x2"]).2 q hq
  obtain ⟨r, hback⟩ := hback ["x9"] hr
  exact ⟨p, q, r, hp, hq, hnames, hproblems, hback⟩

end Program

end CounterPrograms
