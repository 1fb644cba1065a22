import CounterPrograms.Compile.Between
import CounterPrograms.Proofs.Compile.WhileToGoto.Image

/-!
# What WHILE programs compile to

Whatever is compiled from a block is an image of it (`WhileToGoto.emits`): labels are drawn one
after the other, and there is one idle variable, which is new.  So the instructions of a compiled
program are an image and a `HALT` (`WhileToGoto.image_of_whileToGoto`).
-/

namespace CounterPrograms

namespace WhileToGoto

/-! ### Drawing names -/

/-- A supply from which names have been drawn: the idle variable stays what it is, and one that was
not there before is new. -/
structure Supply.Grows (s u : Supply) : Prop where
  le : s.fresh.nextVariable ≤ u.fresh.nextVariable
  idle : ∀ d, s.idle = some d → u.idle = some d
  isVariable : ∀ d, u.idle = some d →
    s.idle = some d ∨ Fresh.IsVariable s.fresh.nextVariable u.fresh.nextVariable d

namespace Supply.Grows

variable {s t u : Supply}

theorem refl (s : Supply) : s.Grows s :=
  ⟨Nat.le_refl _, fun _ hd => hd, fun _ hd => .inl hd⟩

theorem trans (h₁ : s.Grows t) (h₂ : t.Grows u) : s.Grows u := by
  refine ⟨Nat.le_trans h₁.le h₂.le, fun d hd => h₂.idle d (h₁.idle d hd), fun d hd => ?_⟩
  have hle₁ := h₁.le
  have hle₂ := h₂.le
  rcases h₂.isVariable d hd with hd | ⟨j, hj, hj', rfl⟩
  · rcases h₁.isVariable d hd with hd | ⟨j, hj, hj', rfl⟩
    · exact .inl hd
    · exact .inr ⟨j, hj, by omega, rfl⟩
  · exact .inr ⟨j, by omega, hj', rfl⟩

end Supply.Grows

theorem lift_eq_ok_iff {α : Type} {x : Except CompileError α} {a : α} {s u : Supply} :
    lift x s = .ok a u ↔ x = .ok a ∧ s = u := by
  unfold lift
  cases x with
  | ok b => simp
  | error e => simp

theorem freshLabel_eq_ok {l : String} {s u : Supply} (h : freshLabel s = .ok l u) :
    l = Fresh.labelName s.fresh.nextLabel ∧ u.fresh.nextLabel = s.fresh.nextLabel + 1 ∧
      s.Grows u := by
  cases h
  exact ⟨rfl, rfl, Nat.le_refl _, fun _ hd => hd, fun _ hd => .inl hd⟩

theorem idleVariable_eq_ok {d : String} {s u : Supply} (h : idleVariable s = .ok d u) :
    u.idle = some d ∧ u.fresh.nextLabel = s.fresh.nextLabel ∧ s.Grows u := by
  unfold idleVariable at h
  split at h
  · next hd =>
      cases h
      exact ⟨hd, rfl, .refl _⟩
  · next hn =>
      split at h
      · next f hf =>
          cases h
          obtain ⟨rfl, rfl⟩ := Fresh.newVariable_eq_ok hf
          refine ⟨rfl, rfl, Nat.le_succ _, fun d hd => ?_, fun d hd => ?_⟩
          · rw [hn] at hd
            cases hd
          · obtain rfl := Option.some.inj hd
            exact .inr ⟨_, Nat.le_refl _, Nat.lt_succ_self _, rfl⟩
      · cases h

theorem idleAt_eq_ok {label : String} {i : Instruction} {s u : Supply}
    (h : idleAt label s = .ok i u) :
    ∃ d, i = idle d label ∧ u.idle = some d ∧ u.fresh.nextLabel = s.fresh.nextLabel ∧
      s.Grows u := by
  obtain ⟨d, _, hd, h⟩ := EStateM.bind_eq_ok_iff.mp h
  obtain ⟨rfl, rfl⟩ := EStateM.pure_eq_ok_iff.mp h
  exact ⟨d, rfl, idleVariable_eq_ok hd⟩

theorem labelled_eq_ok {label : String} {is js : List Instruction} {s u : Supply}
    (h : labelled label is s = .ok js u) :
    u.fresh.nextLabel = s.fresh.nextLabel ∧ s.Grows u ∧
      ∀ hidden, (∀ d, u.idle = some d → d ∈ hidden) → Begins hidden label is js := by
  unfold labelled at h
  split at h
  · obtain ⟨rfl, rfl⟩ := EStateM.pure_eq_ok_iff.mp h
    exact ⟨rfl, .refl s, fun _ _ => .relabelled⟩
  · obtain ⟨i, t, hi, h⟩ := EStateM.bind_eq_ok_iff.mp h
    obtain ⟨rfl, rfl⟩ := EStateM.pure_eq_ok_iff.mp h
    obtain ⟨d, rfl, hd, hl, hg⟩ := idleAt_eq_ok hi
    exact ⟨hl, hg, fun hidden hall => .idle (hall d hd)⟩

/-! ### Blocks -/

/-- What is compiled from `ss` is an image, whatever is hidden besides the idle variable. -/
def Emits (ss : List Stmt) : Prop :=
  ∀ is s u, compileBlock ss s = .ok is u →
    s.Grows u ∧ ∀ hidden, (∀ d, u.idle = some d → d ∈ hidden) →
      Image hidden s.fresh.nextLabel ss is u.fresh.nextLabel

/-- An absent alternative is compiled like an empty one. -/
theorem compileStmt_ifThen (c : Condition) (t : List Stmt) (e : Option (List Stmt)) :
    compileStmt (.ifThen c t e) = compileStmt (.ifThen c t (some (e.getD []))) := by
  cases e <;> rfl

theorem Emits.nil : Emits [] := by
  intro is s u h
  obtain ⟨rfl, rfl⟩ := EStateM.pure_eq_ok_iff.mp h
  exact ⟨.refl s, fun _ _ => .nil _⟩

theorem Emits.ifThen {c : Condition} {t rest : List Stmt} {e : Option (List Stmt)}
    (ht : Emits t) (he : Emits (e.getD [])) (hr : Emits rest) :
    Emits (.ifThen c t e :: rest) := by
  intro is s u h
  obtain ⟨first, s₁, h₁, h⟩ := EStateM.bind_eq_ok_iff.mp h
  obtain ⟨others, s₂, h₂, h⟩ := EStateM.bind_eq_ok_iff.mp h
  obtain ⟨rfl, rfl⟩ := EStateM.pure_eq_ok_iff.mp h
  rw [compileStmt_ifThen] at h₁
  obtain ⟨other, s₃, hother, h₁⟩ := EStateM.bind_eq_ok_iff.mp h₁
  obtain ⟨stop, s₄, hstop, h₁⟩ := EStateM.bind_eq_ok_iff.mp h₁
  obtain ⟨exit, s₅, hexit, h₁⟩ := EStateM.bind_eq_ok_iff.mp h₁
  obtain ⟨inner, s₆, hinner, h₁⟩ := EStateM.bind_eq_ok_iff.mp h₁
  obtain ⟨outer, s₇, houter, h₁⟩ := EStateM.bind_eq_ok_iff.mp h₁
  obtain ⟨alternative, s₈, halternative, h₁⟩ := EStateM.bind_eq_ok_iff.mp h₁
  obtain ⟨last, s₉, hlast, h₁⟩ := EStateM.bind_eq_ok_iff.mp h₁
  obtain ⟨rfl, rfl⟩ := EStateM.pure_eq_ok_iff.mp h₁
  obtain ⟨hneg, rfl⟩ := lift_eq_ok_iff.mp hexit
  obtain ⟨rfl, hn₃, hg₃⟩ := freshLabel_eq_ok hother
  obtain ⟨rfl, hn₄, hg₄⟩ := freshLabel_eq_ok hstop
  obtain ⟨hg₆, hinner⟩ := ht _ _ _ hinner
  obtain ⟨hg₇, houter⟩ := he _ _ _ houter
  obtain ⟨hn₈, hg₈, hbegins⟩ := labelled_eq_ok halternative
  obtain ⟨d, rfl, hd, hn₉, hg₉⟩ := idleAt_eq_ok hlast
  obtain ⟨hg, hrest⟩ := hr _ _ _ h₂
  refine ⟨hg₃.trans (hg₄.trans (hg₆.trans (hg₇.trans (hg₈.trans (hg₉.trans hg))))),
    fun hidden hall => ?_⟩
  -- What is hidden in the end is hidden after each part.
  have hall₈ := fun d hd => hall d (hg.idle d (hg₉.idle d hd))
  have hall₇ := fun d hd => hall₈ d (hg₈.idle d hd)
  have hthen := hinner hidden fun d hd => hall₇ d (hg₇.idle d hd)
  have helse := houter hidden hall₇
  have hothers := hrest hidden hall
  rw [hn₄, hn₃] at hthen
  rw [hn₉, hn₈] at hothers
  rw [hn₃]
  simpa [branchCode] using
    Image.ifThen hneg (hall d (hg.idle d hd)) hthen helse (hbegins hidden hall₈) hothers

theorem Emits.whileDo {c : Condition} {body rest : List Stmt} (hb : Emits body)
    (hr : Emits rest) : Emits (.whileDo c body :: rest) := by
  intro is s u h
  obtain ⟨first, s₁, h₁, h⟩ := EStateM.bind_eq_ok_iff.mp h
  obtain ⟨others, s₂, h₂, h⟩ := EStateM.bind_eq_ok_iff.mp h
  obtain ⟨rfl, rfl⟩ := EStateM.pure_eq_ok_iff.mp h
  obtain ⟨start, s₃, hstart, h₁⟩ := EStateM.bind_eq_ok_iff.mp h₁
  obtain ⟨stop, s₄, hstop, h₁⟩ := EStateM.bind_eq_ok_iff.mp h₁
  obtain ⟨exit, s₅, hexit, h₁⟩ := EStateM.bind_eq_ok_iff.mp h₁
  obtain ⟨inner, s₆, hinner, h₁⟩ := EStateM.bind_eq_ok_iff.mp h₁
  obtain ⟨last, s₇, hlast, h₁⟩ := EStateM.bind_eq_ok_iff.mp h₁
  obtain ⟨rfl, rfl⟩ := EStateM.pure_eq_ok_iff.mp h₁
  obtain ⟨hneg, rfl⟩ := lift_eq_ok_iff.mp hexit
  obtain ⟨rfl, hn₃, hg₃⟩ := freshLabel_eq_ok hstart
  obtain ⟨rfl, hn₄, hg₄⟩ := freshLabel_eq_ok hstop
  obtain ⟨d, rfl, hd, hn₇, hg₇⟩ := idleAt_eq_ok hlast
  obtain ⟨hg₆, hinner⟩ := hb _ _ _ hinner
  obtain ⟨hg, hrest⟩ := hr _ _ _ h₂
  refine ⟨hg₃.trans (hg₄.trans (hg₆.trans (hg₇.trans hg))), fun hidden hall => ?_⟩
  have hbody := hinner hidden fun d hd => hall d (hg.idle d (hg₇.idle d hd))
  have hothers := hrest hidden hall
  rw [hn₄, hn₃] at hbody
  rw [hn₇] at hothers
  rw [hn₃]
  simpa [loopCode] using Image.whileDo hneg (hall d (hg.idle d hd)) hbody hothers

theorem Emits.assign {x : String} {e : Expr} {rest : List Stmt} (hr : Emits rest) :
    Emits (.assign x e :: rest) := by
  intro is s u h
  obtain ⟨first, s₁, h₁, h⟩ := EStateM.bind_eq_ok_iff.mp h
  obtain ⟨others, s₂, h₂, h⟩ := EStateM.bind_eq_ok_iff.mp h
  obtain ⟨rfl, rfl⟩ := EStateM.pure_eq_ok_iff.mp h
  obtain ⟨e', s₃, he, h₁⟩ := EStateM.bind_eq_ok_iff.mp h₁
  obtain ⟨rfl, rfl⟩ := EStateM.pure_eq_ok_iff.mp h₁
  obtain ⟨hok, rfl⟩ := lift_eq_ok_iff.mp he
  obtain rfl := Expr.eq_of_admitted hok
  obtain ⟨hg, hrest⟩ := hr _ _ _ h₂
  exact ⟨hg, fun hidden hall => .assign (hrest hidden hall)⟩

theorem emits (ss : List Stmt) : Emits ss := by
  induction ss using Stmt.blockInduction with
  | nil => exact .nil
  | assign x e rest ih => exact .assign ih
  | whileDo c body rest ihb ihr => exact .whileDo ihb ihr
  | ifThen c t rest iht ihr => exact .ifThen iht .nil ihr
  | ifElse c t e rest iht ihe ihr => exact .ifThen iht ihe ihr
  | loop | goto | ifGoto | halt | foreign =>
      intro is s u h
      cases h

/-! ### Programs -/

/-- The variable of the idle instructions of a compiled program, if there is one. -/
def idleVariables (ss : List Stmt) (reserved : List String) : List String :=
  (attempt (.whileDo ss) reserved).idle.toList

/-- A compiled program is an image, followed by `HALT`; its idle variable is a new one. -/
theorem emission_of_whileToGoto {ss : List Stmt} {reserved : List String} {q : Program}
    (hq : (Program.whileDo ss).whileToGoto reserved = .ok q) :
    ∃ f is n' m, Fresh.above ((Program.whileDo ss).names ++ reserved) = .ok f ∧
      q = .goto (is ++ [⟨.halt, none⟩]) ∧ Image (idleVariables ss reserved) 0 ss is n' ∧
      ∀ d ∈ idleVariables ss reserved, Fresh.IsVariable f.nextVariable m d := by
  unfold idleVariables
  unfold Program.whileToGoto at hq
  generalize ha : attempt (.whileDo ss) reserved = a at hq
  unfold attempt at ha
  split at ha
  · subst ha
    cases hq
  · next f hf =>
      split at ha
      · next is u his =>
          subst ha
          obtain rfl := Except.ok.inj hq
          obtain ⟨hg, himage⟩ := emits ss _ _ _ his
          refine ⟨f, is, u.fresh.nextLabel, u.fresh.nextVariable, hf, rfl, ?_, ?_⟩
          · have h := himage u.idle.toList fun d hd => Option.mem_toList.mpr hd
            rwa [Fresh.nextLabel_of_above hf] at h
          · intro d hd
            rcases hg.isVariable d (Option.mem_toList.mp hd) with hn | hv
            · cases hn
            · exact hv
      · subst ha
        cases hq

theorem image_of_whileToGoto {ss : List Stmt} {reserved : List String} {q : Program}
    (hq : (Program.whileDo ss).whileToGoto reserved = .ok q) :
    ∃ is n', q = .goto (is ++ [⟨.halt, none⟩]) ∧ Image (idleVariables ss reserved) 0 ss is n' ∧
      ∀ d ∈ idleVariables ss reserved, d ∉ (Program.whileDo ss).names ++ reserved := by
  obtain ⟨f, is, n', m, hf, rfl, himage, hidle⟩ := emission_of_whileToGoto hq
  exact ⟨is, n', rfl, himage, fun d hd => Fresh.not_mem_of_isVariable hf (hidle d hd)⟩

/-! ### Failures -/

theorem onlyRaises_freshLabel : EStateM.OnlyRaises CompileError.IsNumeral freshLabel := by
  intro s e u h
  cases h

theorem onlyRaises_idleAt (label : String) :
    EStateM.OnlyRaises CompileError.IsNumeral (idleAt label) := by
  refine .bind ?_ fun _ => .pure _
  intro s e u h
  unfold idleVariable at h
  split at h
  · cases h
  · split at h
    · cases h
    · next n _ =>
        cases h
        exact ⟨n, rfl⟩

theorem onlyRaises_labelled (label : String) (is : List Instruction) :
    EStateM.OnlyRaises CompileError.IsNumeral (labelled label is) := by
  unfold labelled
  split
  · exact .pure _
  · exact .bind (onlyRaises_idleAt label) fun _ => .pure _

theorem onlyRaises_lift {α : Type} {x : Except CompileError α} {a : α} (h : x = .ok a) :
    EStateM.OnlyRaises CompileError.IsNumeral (lift x) := by
  subst h
  intro s e u h
  cases h

theorem onlyRaises_ifThen {c : Condition} {t : List Stmt} {e : Option (List Stmt)}
    (hc : c.Proper) (ht : EStateM.OnlyRaises CompileError.IsNumeral (compileBlock t))
    (he : EStateM.OnlyRaises CompileError.IsNumeral (compileBlock (e.getD []))) :
    EStateM.OnlyRaises CompileError.IsNumeral (compileStmt (.ifThen c t e)) := by
  obtain ⟨exit, hexit, _⟩ := negated_of_proper hc
  rw [compileStmt_ifThen, compileStmt]
  refine .bind onlyRaises_freshLabel fun other => .bind onlyRaises_freshLabel fun stop => ?_
  refine .bind (onlyRaises_lift hexit) fun _ => .bind ht fun _ => .bind he fun outer => ?_
  refine .bind (onlyRaises_labelled other outer) fun _ => ?_
  exact .bind (onlyRaises_idleAt stop) fun _ => .pure _

/-- Compiling a block fails only if an index is too long. -/
theorem onlyRaises_compileBlock {ss : List Stmt} (hs : While.Block ss) :
    EStateM.OnlyRaises CompileError.IsNumeral (compileBlock ss) := by
  induction hs with
  | nil => exact .pure []
  | assign he _ ih =>
      rw [compileBlock, compileStmt]
      refine .bind (.bind (onlyRaises_lift he.admitted) fun _ => .pure _) fun _ => ?_
      exact .bind ih fun _ => .pure _
  | whileDo hc _ _ ihb ihr =>
      obtain ⟨exit, hexit, _⟩ := negated_of_proper hc
      rw [compileBlock, compileStmt]
      refine .bind ?_ fun _ => .bind ihr fun _ => .pure _
      refine .bind onlyRaises_freshLabel fun start => .bind onlyRaises_freshLabel fun stop => ?_
      refine .bind (onlyRaises_lift hexit) fun _ => .bind ihb fun _ => ?_
      exact .bind (onlyRaises_idleAt stop) fun _ => .pure _
  | ifThen hc _ _ iht ihr =>
      rw [compileBlock]
      exact .bind (onlyRaises_ifThen hc iht (.pure [])) fun _ => .bind ihr fun _ => .pure _
  | ifElse hc _ _ _ iht ihe ihr =>
      rw [compileBlock]
      exact .bind (onlyRaises_ifThen hc iht ihe) fun _ => .bind ihr fun _ => .pure _

theorem isNumeral_of_whileToGoto {ss : List Stmt} (hs : While.Block ss) {reserved : List String}
    {e : CompileError} (h : (Program.whileDo ss).whileToGoto reserved = .error e) :
    e.IsNumeral := by
  unfold Program.whileToGoto attempt at h
  split at h
  · next n _ => exact ⟨n, (Except.error.inj h).symm⟩
  · split at h
    · cases h
    · next hc =>
        obtain rfl := Except.error.inj h
        exact onlyRaises_compileBlock hs _ _ _ hc

end WhileToGoto

end CounterPrograms
