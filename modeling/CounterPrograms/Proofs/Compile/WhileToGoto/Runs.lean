import CounterPrograms.Proofs.Compile.WhileToGoto.Emission
import CounterPrograms.Proofs.Run.Placement
import CounterPrograms.Proofs.Run.While

/-!
# WHILE programs keep their meaning as GOTO programs

An image that stands somewhere in a program is run like its block: a run of the block is a run of
the machine through the image (`WhileToGoto.Image.preserves`), and a halting run that enters the
image runs the block and leaves the image behind its last instruction
(`WhileToGoto.Image.reflects`).  At least as many instructions are executed as conditions are
checked, so the limit on instructions is reached first.
-/

namespace CounterPrograms

namespace WhileToGoto

open Machine

variable {hidden : List String} {code : List Instruction} {labels : List (String × Nat)} {p : Nat}

/-- The exit condition holds in the compiled program exactly when the condition does not hold in the
program. -/
theorem eval_exit_iff {c exit : Condition} {m μ : Memory} {b : Bool} (h : negated c = .ok exit)
    (hn : ∀ x ∈ c.names, x ∉ hidden) (ha : m.AgreesBut hidden μ) :
    exit.eval μ.store = .ok (!b) ↔ c.eval m.store = .ok b := by
  rw [eval_of_negated h, ← ha.test_eq hn]
  cases c.eval m.store with
  | error e => simp [Except.map]
  | ok d => simp [Except.map]

theorem Begins.lookup {label : String} {is js : List Instruction} (h : Begins hidden label is js)
    (hl : Located code labels p js) : labels.lookup label = some p := by
  cases h with
  | relabelled | idle _ => exact hl.head.label label rfl

/-- If no variable of a block is hidden, no variable is hidden in the parts of the case distinction
with which it begins. -/
theorem names_of_ifThen {c : Condition} {t rest : List Stmt} {e : Option (List Stmt)}
    (hn : ∀ x ∈ Stmt.namesOfBlock (.ifThen c t e :: rest), x ∉ hidden) :
    (∀ x ∈ c.names, x ∉ hidden) ∧ (∀ x ∈ Stmt.namesOfBlock t, x ∉ hidden) ∧
      (∀ x ∈ Stmt.namesOfBlock (e.getD []), x ∉ hidden) ∧
      ∀ x ∈ Stmt.namesOfBlock rest, x ∉ hidden := by
  rw [Stmt.namesOfBlock, List.forall_mem_append] at hn
  obtain ⟨hif, hrest⟩ := hn
  refine ⟨fun x hx => hif x ?_, fun x hx => hif x ?_, fun x hx => hif x ?_, hrest⟩ <;>
    rw [Stmt.mem_names_ifThen_iff]
  · exact .inl hx
  · exact .inr (.inl hx)
  · exact .inr (.inr hx)

/-! ### From the machine to the block -/

/-- A halting run of the machine that enters `is` runs the block `ss` and goes on behind `is`, and
no more conditions are checked than instructions are executed. -/
def Reflects (hidden : List String) (ss : List Stmt) (is : List Instruction) : Prop :=
  ∀ ⦃code labels p path m μ t⦄, Located code labels p is → m.AgreesBut hidden μ →
    Halts code path ⟨μ, labels, p⟩ t →
    ∃ k m' μ' rest, While.Exec ss k m m' ∧ m'.AgreesBut hidden μ' ∧
      Halts code rest ⟨μ', labels, p + is.length⟩ t ∧ k + rest.length ≤ path.length

theorem halts_of_idle {d label : String} {path : List Nat} {m μ : Memory} {t : Machine}
    (hd : d ∈ hidden) (hi : Stands code labels p (idle d label)) (ha : m.AgreesBut hidden μ)
    (hr : Halts code path ⟨μ, labels, p⟩ t) :
    ∃ μ' rest, path = p :: rest ∧ m.AgreesBut hidden μ' ∧
      Halts code rest ⟨μ', labels, p + 1⟩ t := by
  obtain ⟨n, rest, _, hpath, hr⟩ := hr.of_assign hi
  exact ⟨_, rest, hpath, ha.count_right.assign_hidden hd n, hr⟩

namespace Reflects

variable {ss rest : List Stmt} {is : List Instruction}

theorem nil : Reflects hidden [] [] := by
  intro code labels p path m μ t _ ha hr
  exact ⟨0, m, μ, path, .nil m, ha, hr, by omega⟩

theorem assign {x : String} {e : Expr} (hx : x ∉ hidden) (he : ∀ y ∈ e.names, y ∉ hidden)
    (h : Reflects hidden rest is) :
    Reflects hidden (.assign x e :: rest) (⟨.assign x e, none⟩ :: is) := by
  intro code labels p path m μ t hloc ha hr
  obtain ⟨v, path₁, hv, rfl, hr₁⟩ := hr.of_assign hloc.head
  rw [← ha.eval_eq he] at hv
  obtain ⟨k, m', μ', path', hex, ha', hr', hle⟩ :=
    h hloc.tail (ha.count_right.assign hx v) hr₁
  refine ⟨k, m', μ', path', .assign hv hex, ha', ?_, Nat.le_succ_of_le hle⟩
  rwa [List.length_cons, Nat.add_comm _ 1, ← Nat.add_assoc]

theorem begins {label : String} {js : List Instruction} (h : Reflects hidden ss is)
    (hb : Begins hidden label is js) : Reflects hidden ss js := by
  cases hb with
  | relabelled =>
      intro code labels p path m μ t hloc ha hr
      exact h hloc.unlabelled ha hr
  | idle hd =>
      intro code labels p path m μ t hloc ha hr
      obtain ⟨μ₁, path₁, rfl, ha₁, hr₁⟩ := halts_of_idle hd hloc.head ha hr
      obtain ⟨k, m', μ', path', hex, ha', hr', hle⟩ := h hloc.tail ha₁ hr₁
      refine ⟨k, m', μ', path', hex, ha', ?_, Nat.le_succ_of_le hle⟩
      rwa [List.length_cons, Nat.add_comm _ 1, ← Nat.add_assoc]

/-- The loop is left by the jump behind it, or its body is run and the loop is met again on a
shorter run. -/
theorem whileDo {c exit : Condition} {d : String} {n : Nat} {body : List Stmt}
    {inner : List Instruction} (hneg : negated c = .ok exit) (hd : d ∈ hidden)
    (hc : ∀ x ∈ c.names, x ∉ hidden) (hbody : Reflects hidden body inner)
    (h : Reflects hidden rest is) :
    Reflects hidden (.whileDo c body :: rest) (loopCode exit d n inner is) := by
  intro code labels p path m μ t hloc ha hr
  have hgoto := hloc.tail.append_right.head
  have hlast := hloc.tail.append_right.tail.head
  have hstart := hloc.head.label _ rfl
  have hstop := hlast.label _ rfl
  obtain ⟨length, hlength⟩ : ∃ length, path.length = length := ⟨_, rfl⟩
  induction length using Nat.strongRecOn generalizing path m μ with
  | ind length ih =>
      rcases hr.of_ifGoto hloc.head with ⟨target, path₁, hb, htarget, rfl, hr₁⟩ |
        ⟨path₁, hb, rfl, hr₁⟩
      · have hcond := (eval_exit_iff (b := false) hneg hc ha).mp hb
        obtain rfl := Option.some.inj (hstop.symm.trans htarget)
        obtain ⟨μ₂, path₂, rfl, ha₂, hr₂⟩ := halts_of_idle hd hlast ha.count_right hr₁
        obtain ⟨k, m', μ', path', hex, ha', hr', hle⟩ :=
          h hloc.tail.append_right.tail.tail ha₂.count_left hr₂
        refine ⟨k + 1, m', μ', path', .whileFalse hcond hex, ha', ?_, ?_⟩
        · rwa [add_length_loopCode]
        · simp only [List.length_cons]
          omega
      · have hcond := (eval_exit_iff (b := true) hneg hc ha).mp hb
        obtain ⟨k₁, m₁, μ₁, path₂, hex₁, ha₁, hr₂, hle₁⟩ :=
          hbody hloc.tail.append_left (ha.count_left.count_right) hr₁
        obtain ⟨target, path₃, htarget, rfl, hr₃⟩ := hr₂.of_goto hgoto
        obtain rfl := Option.some.inj (hstart.symm.trans htarget)
        simp only [List.length_cons] at hlength hle₁
        obtain ⟨k₂, m₂, μ₂, path', hex₂, ha₂, hr', hle₂⟩ :=
          ih path₃.length (by omega) ha₁.count_right hr₃ rfl
        refine ⟨k₁ + k₂ + 1, m₂, μ₂, path', .whileTrue hcond hex₁ hex₂, ha₂, hr', ?_⟩
        rw [List.length_cons]
        omega

/-- One alternative is run, and then what follows the end of the other one. -/
theorem ifThen {c exit : Condition} {d : String} {n : Nat} {t : List Stmt}
    {e : Option (List Stmt)} {inner outer alternative : List Instruction}
    (hneg : negated c = .ok exit) (hd : d ∈ hidden) (hc : ∀ x ∈ c.names, x ∉ hidden)
    (ht : Reflects hidden t inner) (he : Reflects hidden (e.getD []) outer)
    (hbegin : Begins hidden (Fresh.labelName n) outer alternative) (h : Reflects hidden rest is) :
    Reflects hidden (.ifThen c t e :: rest) (branchCode exit d n inner alternative is) := by
  intro code labels p path m μ u hloc ha hr
  have hgoto := hloc.tail.append_right.head
  have halternative := hloc.tail.append_right.tail.append_left
  have hlast := hloc.tail.append_right.tail.append_right.head
  have hrest := hloc.tail.append_right.tail.append_right.tail
  rcases hr.of_ifGoto hloc.head with ⟨target, path₁, hb, htarget, rfl, hr₁⟩ | ⟨path₁, hb, rfl, hr₁⟩
  · have hcond := (eval_exit_iff (b := false) hneg hc ha).mp hb
    obtain rfl := Option.some.inj ((hbegin.lookup halternative).symm.trans htarget)
    obtain ⟨k₁, m₁, μ₁, path₂, hex₁, ha₁, hr₂, hle₁⟩ :=
      he.begins hbegin halternative ha.count_right hr₁
    obtain ⟨μ₂, path₃, rfl, ha₂, hr₃⟩ := halts_of_idle hd hlast ha₁ hr₂
    obtain ⟨k₂, m', μ', path', hex₂, ha', hr', hle₂⟩ := h hrest ha₂ hr₃
    simp only [List.length_cons] at hle₁
    refine ⟨k₁ + k₂, m', μ', path', .ifFalse hcond hex₁ hex₂, ha', ?_, ?_⟩
    · rwa [add_length_branchCode]
    · rw [List.length_cons]
      omega
  · have hcond := (eval_exit_iff (b := true) hneg hc ha).mp hb
    obtain ⟨k₁, m₁, μ₁, path₂, hex₁, ha₁, hr₂, hle₁⟩ :=
      ht hloc.tail.append_left ha.count_right hr₁
    obtain ⟨target, path₃, htarget, rfl, hr₃⟩ := hr₂.of_goto hgoto
    obtain rfl := Option.some.inj ((hlast.label _ rfl).symm.trans htarget)
    obtain ⟨μ₂, path₄, rfl, ha₂, hr₄⟩ := halts_of_idle hd hlast ha₁.count_right hr₃
    obtain ⟨k₂, m', μ', path', hex₂, ha', hr', hle₂⟩ := h hrest ha₂ hr₄
    simp only [List.length_cons] at hle₁
    refine ⟨k₁ + k₂, m', μ', path', .ifTrue hcond hex₁ hex₂, ha', ?_, ?_⟩
    · rwa [add_length_branchCode]
    · rw [List.length_cons]
      omega

end Reflects

/-- Every image reflects its block. -/
theorem Image.reflects {n n' : Nat} {ss : List Stmt} {is : List Instruction}
    (h : Image hidden n ss is n') (hn : ∀ x ∈ Stmt.namesOfBlock ss, x ∉ hidden) :
    Reflects hidden ss is := by
  induction h with
  | nil n => exact .nil
  | assign _ ih =>
      simp only [Stmt.namesOfBlock, Stmt.names, List.forall_mem_append, List.forall_mem_cons] at hn
      exact .assign hn.1.1 hn.1.2 (ih hn.2)
  | whileDo hneg hd _ _ ihb ihr =>
      simp only [Stmt.namesOfBlock, Stmt.names, List.forall_mem_append] at hn
      exact .whileDo hneg hd hn.1.1 (ihb hn.1.2) (ihr hn.2)
  | ifThen hneg hd _ _ hbegin _ iht ihe ihr =>
      obtain ⟨hc, ht, he, hr⟩ := names_of_ifThen hn
      exact .ifThen hneg hd hc (iht ht) (ihe he) hbegin (ihr hr)

/-! ### From the block to the machine -/

/-- A run of a block from `m` to `m'` is a run of the machine through `is`. -/
def Preserves (hidden : List String) (m m' : Memory) (is : List Instruction) : Prop :=
  ∀ ⦃code labels p μ⦄, Located code labels p is → m.AgreesBut hidden μ →
    ∃ path μ', Steps code path ⟨μ, labels, p⟩ ⟨μ', labels, p + is.length⟩ ∧ m'.AgreesBut hidden μ'

theorem steps_of_idle {d label : String} {m μ : Memory} (hd : d ∈ hidden)
    (hi : Stands code labels p (idle d label)) (ha : m.AgreesBut hidden μ) :
    ∃ μ', Steps code [p] ⟨μ, labels, p⟩ ⟨μ', labels, p + 1⟩ ∧ m.AgreesBut hidden μ' :=
  ⟨_, .assign hi rfl, ha.count_right.assign_hidden hd 0⟩

namespace Preserves

variable {m m₁ m' : Memory} {is : List Instruction}

theorem begins {label : String} {js : List Instruction} (h : Preserves hidden m m' is)
    (hb : Begins hidden label is js) : Preserves hidden m m' js := by
  cases hb with
  | relabelled =>
      intro code labels p μ hloc ha
      exact h hloc.unlabelled ha
  | idle hd =>
      intro code labels p μ hloc ha
      obtain ⟨μ₁, hs₁, ha₁⟩ := steps_of_idle hd hloc.head ha
      obtain ⟨path, μ', hs, ha'⟩ := h hloc.tail ha₁
      rw [List.length_cons, Nat.add_comm _ 1, ← Nat.add_assoc]
      exact ⟨_, μ', hs₁.trans hs, ha'⟩

theorem whileFalse {c exit : Condition} {d : String} {n : Nat} {inner : List Instruction}
    (hneg : negated c = .ok exit) (hd : d ∈ hidden) (hn : ∀ x ∈ c.names, x ∉ hidden)
    (hc : c.eval m.store = .ok false) (h : Preserves hidden m.count m' is) :
    Preserves hidden m m' (loopCode exit d n inner is) := by
  intro code labels p μ hloc ha
  have hlast := hloc.tail.append_right.tail.head
  have hs₁ := Steps.ifGoto hloc.head ((eval_exit_iff hneg hn ha).mpr hc)
    (hlast.label _ rfl)
  obtain ⟨μ₂, hs₂, ha₂⟩ := steps_of_idle hd hlast ha.count_right
  obtain ⟨path, μ', hs, ha'⟩ := h hloc.tail.append_right.tail.tail ha₂.count_left
  rw [add_length_loopCode]
  exact ⟨_, μ', hs₁.trans (hs₂.trans hs), ha'⟩

theorem whileTrue {c exit : Condition} {d : String} {n : Nat} {inner : List Instruction}
    (hneg : negated c = .ok exit) (hn : ∀ x ∈ c.names, x ∉ hidden)
    (hc : c.eval m.store = .ok true) (hbody : Preserves hidden m.count m₁ inner)
    (h : Preserves hidden m₁ m' (loopCode exit d n inner is)) :
    Preserves hidden m m' (loopCode exit d n inner is) := by
  intro code labels p μ hloc ha
  have hlast := hloc.tail.append_right.tail.head
  have hs₁ := Steps.ifGoto hloc.head ((eval_exit_iff hneg hn ha).mpr hc)
    (hlast.label _ rfl)
  obtain ⟨path₂, μ₂, hs₂, ha₂⟩ := hbody hloc.tail.append_left ha.count_left.count_right
  have hs₃ := Steps.goto (m := μ₂) hloc.tail.append_right.head (hloc.head.label _ rfl)
  obtain ⟨path, μ', hs, ha'⟩ := h hloc ha₂.count_right
  exact ⟨_, μ', hs₁.trans (hs₂.trans (hs₃.trans hs)), ha'⟩

variable {c exit : Condition} {d : String} {n : Nat} {inner outer alternative : List Instruction}

theorem ifTrue (hneg : negated c = .ok exit) (hd : d ∈ hidden) (hn : ∀ x ∈ c.names, x ∉ hidden)
    (hc : c.eval m.store = .ok true) (ht : Preserves hidden m m₁ inner)
    (h : Preserves hidden m₁ m' is) (hbegin : Begins hidden (Fresh.labelName n) outer alternative) :
    Preserves hidden m m' (branchCode exit d n inner alternative is) := by
  intro code labels p μ hloc ha
  have halternative := hloc.tail.append_right.tail.append_left
  have hlast := hloc.tail.append_right.tail.append_right.head
  have hs₁ := Steps.ifGoto hloc.head ((eval_exit_iff hneg hn ha).mpr hc)
    (hbegin.lookup halternative)
  obtain ⟨path₂, μ₂, hs₂, ha₂⟩ := ht hloc.tail.append_left ha.count_right
  have hs₃ := Steps.goto (m := μ₂) hloc.tail.append_right.head (hlast.label _ rfl)
  obtain ⟨μ₄, hs₄, ha₄⟩ := steps_of_idle hd hlast ha₂.count_right
  obtain ⟨path, μ', hs, ha'⟩ := h hloc.tail.append_right.tail.append_right.tail ha₄
  rw [add_length_branchCode]
  exact ⟨_, μ', hs₁.trans (hs₂.trans (hs₃.trans (hs₄.trans hs))), ha'⟩

theorem ifFalse (hneg : negated c = .ok exit) (hd : d ∈ hidden) (hn : ∀ x ∈ c.names, x ∉ hidden)
    (hc : c.eval m.store = .ok false) (he : Preserves hidden m m₁ outer)
    (h : Preserves hidden m₁ m' is) (hbegin : Begins hidden (Fresh.labelName n) outer alternative) :
    Preserves hidden m m' (branchCode exit d n inner alternative is) := by
  intro code labels p μ hloc ha
  have halternative := hloc.tail.append_right.tail.append_left
  have hlast := hloc.tail.append_right.tail.append_right.head
  have hs₁ := Steps.ifGoto hloc.head ((eval_exit_iff hneg hn ha).mpr hc)
    (hbegin.lookup halternative)
  obtain ⟨path₂, μ₂, hs₂, ha₂⟩ := he.begins hbegin halternative ha.count_right
  obtain ⟨μ₃, hs₃, ha₃⟩ := steps_of_idle hd hlast ha₂
  obtain ⟨path, μ', hs, ha'⟩ := h hloc.tail.append_right.tail.append_right.tail ha₃
  rw [add_length_branchCode]
  exact ⟨_, μ', hs₁.trans (hs₂.trans (hs₃.trans hs)), ha'⟩

end Preserves

/-- Every run of a block is a run through its image. -/
theorem Image.preserves {n n' k : Nat} {ss : List Stmt} {is : List Instruction} {m m' : Memory}
    (h : Image hidden n ss is n') (hn : ∀ x ∈ Stmt.namesOfBlock ss, x ∉ hidden)
    (hex : While.Exec ss k m m') : Preserves hidden m m' is := by
  induction hex generalizing n n' is with
  | nil m =>
      cases h
      intro code labels p μ _ ha
      exact ⟨[], μ, .refl _, ha⟩
  | @assign x e v _ _ m m' hv _ ih =>
      cases h with
      | assign hr =>
          simp only [Stmt.namesOfBlock, Stmt.names, List.forall_mem_append,
            List.forall_mem_cons] at hn
          intro code labels p μ hloc ha
          rw [ha.eval_eq hn.1.2] at hv
          obtain ⟨path, μ', hs, ha'⟩ := ih hr hn.2 hloc.tail (ha.count_right.assign hn.1.1 v)
          rw [List.length_cons, Nat.add_comm _ 1, ← Nat.add_assoc]
          exact ⟨_, μ', (Steps.assign hloc.head hv).trans hs, ha'⟩
  | whileTrue hc _ _ ih₁ ih₂ =>
      have h' := h
      have hn' := hn
      cases h with
      | whileDo hneg hd hb hr =>
          simp only [Stmt.namesOfBlock, Stmt.names, List.forall_mem_append] at hn
          exact .whileTrue hneg hn.1.1 hc (ih₁ hb hn.1.2) (ih₂ h' hn')
  | whileFalse hc _ ih =>
      cases h with
      | whileDo hneg hd hb hr =>
          simp only [Stmt.namesOfBlock, Stmt.names, List.forall_mem_append] at hn
          exact .whileFalse hneg hd hn.1.1 hc (ih hr hn.2)
  | ifTrue hc _ _ ih₁ ih₂ =>
      cases h with
      | ifThen hneg hd ht he hbegin hr =>
          obtain ⟨hnc, hnt, _, hnr⟩ := names_of_ifThen hn
          exact .ifTrue hneg hd hnc hc (ih₁ ht hnt) (ih₂ hr hnr) hbegin
  | ifFalse hc _ _ ih₁ ih₂ =>
      cases h with
      | ifThen hneg hd ht he hbegin hr =>
          obtain ⟨hnc, _, hne, hnr⟩ := names_of_ifThen hn
          exact .ifFalse hneg hd hnc hc (ih₁ he hne) (ih₂ hr hnr) hbegin

end WhileToGoto

end CounterPrograms
