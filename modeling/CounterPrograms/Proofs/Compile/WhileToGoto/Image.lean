import CounterPrograms.Proofs.Compile.Admission
import CounterPrograms.Proofs.Compile.Fresh
import CounterPrograms.Proofs.Labels
import CounterPrograms.Proofs.Run.Goto

/-!
# WHILE blocks compiled to instructions

`WhileToGoto.Image hidden n ss is n'` describes the instructions `is` compiled from the block `ss`
without the drawing of names: their labels have the numbers from `n` up to `n'`, and the idle
instructions assign to variables in `hidden`.

No label is carried twice (`Image.nodup`), and every jump goes to a label of the image
(`Image.closed`).
-/

namespace CounterPrograms

namespace WhileToGoto

/-- An instruction without effect on the variables of the program. -/
def idle (d label : String) : Instruction :=
  ⟨.assign d (.num 0), some label⟩

/-- The two ways to let instructions begin at a label. -/
inductive Begins (hidden : List String) (label : String) :
    List Instruction → List Instruction → Prop
  | relabelled {st : Stmt} {rest : List Instruction} :
      Begins hidden label (⟨st, none⟩ :: rest) (⟨st, some label⟩ :: rest)
  | idle {d : String} {is : List Instruction} :
      d ∈ hidden → Begins hidden label is (idle d label :: is)

/-- The instructions of a loop, followed by `is`. -/
def loopCode (exit : Condition) (d : String) (n : Nat) (inner is : List Instruction) :
    List Instruction :=
  ⟨.ifGoto exit (Fresh.labelName (n + 1)), some (Fresh.labelName n)⟩ :: (inner ++
    ⟨.goto (Fresh.labelName n), none⟩ :: idle d (Fresh.labelName (n + 1)) :: is)

/-- The instructions of a case distinction, followed by `is`. -/
def branchCode (exit : Condition) (d : String) (n : Nat) (inner alternative is : List Instruction) :
    List Instruction :=
  ⟨.ifGoto exit (Fresh.labelName n), none⟩ :: (inner ++
    ⟨.goto (Fresh.labelName (n + 1)), none⟩ :: (alternative ++
      idle d (Fresh.labelName (n + 1)) :: is))

/-- The compiled blocks of WHILE programs. -/
inductive Image (hidden : List String) : Nat → List Stmt → List Instruction → Nat → Prop
  | nil (n : Nat) : Image hidden n [] [] n
  | assign {x : String} {e : Expr} {n n' : Nat} {rest : List Stmt} {is : List Instruction} :
      Image hidden n rest is n' →
      Image hidden n (.assign x e :: rest) (⟨.assign x e, none⟩ :: is) n'
  | whileDo {c exit : Condition} {d : String} {n k n' : Nat} {body rest : List Stmt}
      {inner is : List Instruction} :
      negated c = .ok exit → d ∈ hidden →
      Image hidden (n + 2) body inner k → Image hidden k rest is n' →
      Image hidden n (.whileDo c body :: rest) (loopCode exit d n inner is) n'
  | ifThen {c exit : Condition} {d : String} {n k l n' : Nat} {t rest : List Stmt}
      {e : Option (List Stmt)} {inner outer alternative is : List Instruction} :
      negated c = .ok exit → d ∈ hidden →
      Image hidden (n + 2) t inner k → Image hidden k (e.getD []) outer l →
      Begins hidden (Fresh.labelName n) outer alternative → Image hidden l rest is n' →
      Image hidden n (.ifThen c t e :: rest) (branchCode exit d n inner alternative is) n'

theorem add_length_loopCode (p : Nat) (exit : Condition) (d : String) (n : Nat)
    (inner is : List Instruction) :
    p + (loopCode exit d n inner is).length = p + 1 + inner.length + 1 + 1 + is.length := by
  simp only [loopCode, List.length_cons, List.length_append]
  omega

/-- Where the instructions behind a case distinction stand. -/
theorem add_length_branchCode (p : Nat) (exit : Condition) (d : String) (n : Nat)
    (inner alternative is : List Instruction) :
    p + (branchCode exit d n inner alternative is).length =
      p + 1 + inner.length + 1 + alternative.length + 1 + is.length := by
  simp only [branchCode, List.length_cons, List.length_append]
  omega

/-! ### Labels -/

theorem names_loopCode (exit : Condition) (d : String) (n : Nat) (inner is : List Instruction) :
    Labels.names (loopCode exit d n inner is) =
      Fresh.labelName n :: (Labels.names inner ++ Fresh.labelName (n + 1) :: Labels.names is) := by
  simp [loopCode, idle]

theorem names_branchCode (exit : Condition) (d : String) (n : Nat)
    (inner alternative is : List Instruction) :
    Labels.names (branchCode exit d n inner alternative is) =
      Labels.names inner ++
        (Labels.names alternative ++ Fresh.labelName (n + 1) :: Labels.names is) := by
  simp [branchCode, idle]

theorem Begins.names_eq {hidden : List String} {label : String} {is js : List Instruction}
    (h : Begins hidden label is js) : Labels.names js = label :: Labels.names is := by
  cases h with
  | relabelled => simp
  | idle _ => simp [WhileToGoto.idle]

namespace Image

variable {hidden : List String} {n n' : Nat} {ss : List Stmt} {is : List Instruction}

theorem le (h : Image hidden n ss is n') : n ≤ n' := by
  induction h with
  | nil n => exact Nat.le_refl n
  | assign _ ih => exact ih
  | whileDo _ _ _ _ ihb ihr => omega
  | ifThen _ _ _ _ _ _ iht ihe ihr => omega

/-- The labels of an image are those drawn for it, in some order. -/
theorem names_perm (h : Image hidden n ss is n') :
    (Labels.names is).Perm (Fresh.labels n n') := by
  induction h with
  | nil n =>
      rw [Fresh.labels_self]
      exact .refl []
  | assign _ ih => simpa using ih
  | @whileDo _ _ _ n k n' _ _ inner is _ _ hb hr ihb ihr =>
      have hb' := hb.le
      have hr' := hr.le
      rw [Fresh.labels_eq_cons (by omega), Fresh.labels_eq_cons (by omega),
        ← Fresh.labels_append hb' hr', names_loopCode]
      exact (List.perm_middle.trans ((ihb.append ihr).cons _)).cons _
  | @ifThen _ _ _ n k l n' _ _ _ _ _ _ _ _ _ ht he hbegin hr iht ihe ihr =>
      have ht' := ht.le
      have he' := he.le
      have hr' := hr.le
      rw [Fresh.labels_eq_cons (by omega), Fresh.labels_eq_cons (by omega),
        ← Fresh.labels_append ht' (by omega), ← Fresh.labels_append he' hr', names_branchCode,
        hbegin.names_eq, List.cons_append]
      refine List.perm_middle.trans (.cons _ ?_)
      exact (iht.append (List.perm_middle.trans ((ihe.append ihr).cons _))).trans List.perm_middle

theorem nodup (h : Image hidden n ss is n') : (Labels.names is).Nodup :=
  h.names_perm.nodup_iff.mpr (Fresh.nodup_labels n n')

end Image

/-! ### Variables -/

theorem mem_names_loopCode {exit : Condition} {d : String} {n : Nat}
    {inner is : List Instruction} {x : String} :
    x ∈ (Program.goto (loopCode exit d n inner is)).names ↔
      x ∈ exit.names ∨ x ∈ (Program.goto inner).names ∨ x = d ∨ x ∈ (Program.goto is).names := by
  simp [Program.names, loopCode, idle, Stmt.namesOfBlock, Stmt.namesOfBlock_append, Stmt.names,
    Expr.names]

theorem mem_names_branchCode {exit : Condition} {d : String} {n : Nat}
    {inner alternative is : List Instruction} {x : String} :
    x ∈ (Program.goto (branchCode exit d n inner alternative is)).names ↔
      x ∈ exit.names ∨ x ∈ (Program.goto inner).names ∨ x ∈ (Program.goto alternative).names ∨
        x = d ∨ x ∈ (Program.goto is).names := by
  simp [Program.names, branchCode, idle, Stmt.namesOfBlock, Stmt.namesOfBlock_append, Stmt.names,
    Expr.names]

theorem mem_names_append_halt {is : List Instruction} {x : String} :
    x ∈ (Program.goto (is ++ [⟨.halt, none⟩])).names ↔ x ∈ (Program.goto is).names := by
  simp [Program.names, Stmt.namesOfBlock, Stmt.namesOfBlock_append, Stmt.names]

theorem Begins.mem_names {hidden : List String} {label : String} {is js : List Instruction}
    (h : Begins hidden label is js) {x : String} (hx : x ∈ (Program.goto is).names) :
    x ∈ (Program.goto js).names := by
  cases h with
  | relabelled => exact hx
  | idle _ => exact List.mem_append_right _ hx

theorem Begins.names_cases {hidden : List String} {label : String} {is js : List Instruction}
    (h : Begins hidden label is js) {x : String} (hx : x ∈ (Program.goto js).names) :
    x ∈ (Program.goto is).names ∨ x ∈ hidden := by
  cases h with
  | relabelled => exact .inl hx
  | idle hd =>
      rcases List.mem_append.mp hx with hx | hx
      · exact .inr (List.mem_singleton.mp hx ▸ hd)
      · exact .inl hx

theorem Image.mem_names {hidden : List String} {n n' : Nat} {ss : List Stmt}
    {is : List Instruction} (h : Image hidden n ss is n') {x : String}
    (hx : x ∈ Stmt.namesOfBlock ss) : x ∈ (Program.goto is).names := by
  induction h with
  | nil n => exact hx
  | assign _ ih =>
      rcases List.mem_append.mp hx with hx | hx
      · exact List.mem_append_left _ hx
      · exact List.mem_append_right _ (ih hx)
  | whileDo hneg _ _ _ ihb ihr =>
      simp only [Stmt.namesOfBlock, Stmt.names, List.mem_append] at hx
      rw [mem_names_loopCode, names_of_negated hneg]
      rcases hx with (hx | hx) | hx
      · exact .inl hx
      · exact .inr (.inl (ihb hx))
      · exact .inr (.inr (.inr (ihr hx)))
  | ifThen hneg _ _ _ hbegin _ iht ihe ihr =>
      rw [Stmt.namesOfBlock, List.mem_append, Stmt.mem_names_ifThen_iff] at hx
      rw [mem_names_branchCode, names_of_negated hneg]
      rcases hx with (hx | hx | hx) | hx
      · exact .inl hx
      · exact .inr (.inl (iht hx))
      · exact .inr (.inr (.inl (hbegin.mem_names (ihe hx))))
      · exact .inr (.inr (.inr (.inr (ihr hx))))

theorem Image.names_cases {hidden : List String} {n n' : Nat} {ss : List Stmt}
    {is : List Instruction} (h : Image hidden n ss is n') {x : String}
    (hx : x ∈ (Program.goto is).names) : x ∈ Stmt.namesOfBlock ss ∨ x ∈ hidden := by
  induction h with
  | nil n => exact .inl hx
  | assign _ ih =>
      rcases List.mem_append.mp hx with hx | hx
      · exact .inl (List.mem_append_left _ hx)
      · exact (ih hx).imp_left (List.mem_append_right _)
  | whileDo hneg hd _ _ ihb ihr =>
      rw [mem_names_loopCode, names_of_negated hneg] at hx
      simp only [Stmt.namesOfBlock, Stmt.names, List.mem_append]
      rcases hx with hx | hx | rfl | hx
      · exact .inl (.inl (.inl hx))
      · exact (ihb hx).imp_left fun hx => .inl (.inr hx)
      · exact .inr hd
      · exact (ihr hx).imp_left .inr
  | ifThen hneg hd _ _ hbegin _ iht ihe ihr =>
      rw [mem_names_branchCode, names_of_negated hneg] at hx
      rw [Stmt.namesOfBlock, List.mem_append, Stmt.mem_names_ifThen_iff]
      rcases hx with hx | hx | hx | rfl | hx
      · exact .inl (.inl (.inl hx))
      · exact (iht hx).imp_left fun hx => .inl (.inr (.inl hx))
      · rcases hbegin.names_cases hx with hx | hx
        · exact (ihe hx).imp_left fun hx => .inl (.inr (.inr hx))
        · exact .inr hx
      · exact .inr hd
      · exact (ihr hx).imp_left .inr

/-! ### Jumps -/

theorem Begins.closed {hidden labels : List String} {label : String} {is js : List Instruction}
    (h : Begins hidden label is js) (hc : ∀ i ∈ is, Machine.Closed labels i.statement) :
    ∀ i ∈ js, Machine.Closed labels i.statement := by
  cases h with
  | relabelled =>
      rw [List.forall_mem_cons] at hc ⊢
      exact hc
  | idle _ =>
      rw [List.forall_mem_cons]
      exact ⟨.assign trivial, hc⟩

theorem Image.closed {hidden : List String} {n n' : Nat} {ss : List Stmt} {is : List Instruction}
    (h : Image hidden n ss is n') (hs : While.Block ss) {labels : List String}
    (hl : ∀ l ∈ Labels.names is, l ∈ labels) : ∀ i ∈ is, Machine.Closed labels i.statement := by
  induction h with
  | nil n => exact fun i hi => absurd hi List.not_mem_nil
  | assign _ ih =>
      cases hs with
      | assign he hr =>
          rw [List.forall_mem_cons]
          exact ⟨.assign he, ih hr (by simpa using hl)⟩
  | whileDo hneg _ _ _ ihb ihr =>
      cases hs with
      | whileDo hc hb hr =>
          simp only [names_loopCode, List.forall_mem_cons, List.forall_mem_append] at hl
          obtain ⟨hstart, hinner, hstop, hrest⟩ := hl
          simp only [loopCode, List.forall_mem_cons, List.forall_mem_append]
          exact ⟨.ifGoto (proper_of_negated hc hneg) hstop, ihb hb hinner, .goto hstart,
            .assign trivial, ihr hr hrest⟩
  | ifThen hneg _ _ _ hbegin _ iht ihe ihr =>
      obtain ⟨hc, ht, he, hr⟩ := hs.of_ifThen
      simp only [names_branchCode, hbegin.names_eq, List.cons_append, List.forall_mem_cons,
        List.forall_mem_append] at hl
      obtain ⟨hinner, hother, houter, hstop, hrest⟩ := hl
      simp only [branchCode, List.forall_mem_cons, List.forall_mem_append]
      exact ⟨.ifGoto (proper_of_negated hc hneg) hother, iht ht hinner, .goto hstop,
        hbegin.closed (ihe he houter), .assign trivial, ihr hr hrest⟩

end WhileToGoto

end CounterPrograms
