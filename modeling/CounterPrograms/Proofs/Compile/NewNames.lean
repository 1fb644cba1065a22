import CounterPrograms.Proofs.Compile.GotoToWhile
import CounterPrograms.Proofs.Compile.LoopToWhile
import CounterPrograms.Proofs.Compile.WhileToGoto.Emission
import CounterPrograms.Proofs.Program.Literals

/-!
# The new variables of compiled programs

`Program.Gains reserved k p q` says that `q` has the variables of `p` and exactly `k` others, none
of which is reserved.  Every compilation gives such a program, with one new variable for every
counter or position that it has to keep and one for idle instructions
(`Program.gains_of_compile`); as the variables of a LOOP program compiled to WHILE are in use when
it is compiled further, the numbers add up.

No name collides with one in use or with another new one, however many are drawn
(`Program.new_names_distinct`).
-/

namespace CounterPrograms

namespace Program

/-- The variables of `q` are those of `p` and `k` others, which are not reserved. -/
def Gains (reserved : List String) (k : Nat) (p q : Program) : Prop :=
  ∃ new : List String, new.Nodup ∧ new.length = k ∧ (∀ x ∈ new, x ∉ p.names ∧ x ∉ reserved) ∧
    ∀ x, x ∈ q.names ↔ x ∈ p.names ∨ x ∈ new

/-- The number of new variables that a program needs in another language. -/
def newVariableCount (source target : Language) (p : Program) : Nat :=
  match source, target with
  | .loop, .whileDo => p.loopCount
  | .whileDo, .goto => if p.hasConditional then 1 else 0
  | .goto, .whileDo => if p.instructions.isEmpty then 0 else 1
  | .loop, .goto => p.loopCount + if 0 < p.loopCount then 1 else 0
  | _, _ => 0

namespace Gains

variable {reserved : List String} {p q r : Program}

theorem zero (h : ∀ x, x ∈ q.names ↔ x ∈ p.names) : Gains reserved 0 p q := by
  refine ⟨[], List.nodup_nil, rfl, fun x hx => absurd hx List.not_mem_nil, fun x => ?_⟩
  rw [h x]
  exact ⟨.inl, fun hx => hx.resolve_right List.not_mem_nil⟩

theorem one {d : String} (hd : d ∉ p.names ++ reserved)
    (h : ∀ x, x ∈ q.names ↔ x ∈ p.names ∨ x = d) : Gains reserved 1 p q := by
  rw [List.mem_append, not_or] at hd
  refine ⟨[d], List.nodup_cons.mpr ⟨List.not_mem_nil, List.nodup_nil⟩, rfl, fun x hx => ?_,
    fun x => ?_⟩
  · rw [List.mem_singleton.mp hx]
    exact hd
  · rw [h x, List.mem_singleton]

theorem trans {j k : Nat} (h : Gains reserved j p q) (h' : Gains reserved k q r) :
    Gains reserved (j + k) p r := by
  obtain ⟨new, hd, hlen, hout, hnames⟩ := h
  obtain ⟨new', hd', hlen', hout', hnames'⟩ := h'
  refine ⟨new ++ new', ?_, ?_, fun x hx => ?_, fun x => ?_⟩
  · refine List.nodup_append.mpr ⟨hd, hd', fun x hx y hy heq => ?_⟩
    subst heq
    exact (hout' x hy).1 ((hnames x).mpr (.inr hx))
  · rw [List.length_append, hlen, hlen']
  · rcases List.mem_append.mp hx with hx | hx
    · exact hout x hx
    · obtain ⟨hq, hr⟩ := hout' x hx
      exact ⟨fun hp => hq ((hnames x).mpr (.inl hp)), hr⟩
  · rw [hnames' x, hnames x, List.mem_append, or_assoc]

end Gains

end Program

/-! ### From LOOP to WHILE -/

namespace LoopToWhile

variable {n n' : Nat} {ss ts : List Stmt}

/-- One index is used for each loop. -/
theorem Image.eq_add_countP (h : Image n ss ts n') :
    n' = n + (Stmt.partsOfBlock ss).countP Stmt.isLoop := by
  induction h with
  | nil n => rfl
  | assign _ ih => exact ih
  | @loop v n k n' body inner rest ts _ _ ihb ihr =>
      have hcount : (Stmt.partsOfBlock (.loop v body :: rest)).countP Stmt.isLoop =
          (Stmt.partsOfBlock body).countP Stmt.isLoop + 1 +
            (Stmt.partsOfBlock rest).countP Stmt.isLoop := by
        rw [Stmt.partsOfBlock, List.countP_append, Stmt.parts, List.countP_cons]
        rfl
      omega

theorem Image.any_isConditional (h : Image n ss ts n') :
    (Stmt.partsOfBlock ts).any Stmt.isConditional =
      decide (0 < (Stmt.partsOfBlock ss).countP Stmt.isLoop) := by
  induction h with
  | nil n => rfl
  | assign _ ih => exact ih
  | loop _ _ _ _ =>
      rw [decide_eq_true]
      · rfl
      · rw [List.countP_pos_iff]
        exact ⟨_, List.mem_cons_self, rfl⟩

theorem gains_of_loopToWhile {reserved : List String} {q : Program}
    (hq : (Program.loop ss).loopToWhile reserved = .ok q) :
    (Program.loop ss).Gains reserved (Program.loop ss).loopCount q := by
  obtain ⟨f, ts, n', hf, rfl, himage⟩ := image_of_loopToWhile hq
  refine ⟨Fresh.numbered Fresh.variableName f.nextVariable n', Fresh.nodup_variables _ _, ?_,
    fun x hx => ?_, fun x => ?_⟩
  · rw [Fresh.length_numbered, himage.eq_add_countP, Nat.add_sub_cancel_left]
    rfl
  · have hout := Fresh.not_mem_of_isVariable hf (Fresh.mem_numbered_variableName.mp hx)
    rwa [List.mem_append, not_or] at hout
  · rw [Fresh.mem_numbered_variableName]
    exact himage.mem_names_iff

end LoopToWhile

/-! ### From WHILE to GOTO -/

namespace WhileToGoto

variable {hidden : List String} {n n' : Nat} {ss : List Stmt} {is : List Instruction}

/-- Without conditions there is nothing but assignments, which are carried over. -/
theorem Image.map_statement (h : Image hidden n ss is n')
    (hc : (Stmt.partsOfBlock ss).any Stmt.isConditional = false) :
    is.map Instruction.statement = ss := by
  induction h with
  | nil n => rfl
  | assign _ ih => exact congrArg (List.cons _) (ih hc)
  | whileDo _ _ _ _ _ _ => cases hc
  | @ifThen _ _ _ _ _ _ _ _ _ e _ _ _ _ _ _ _ _ _ _ _ _ _ => cases e <;> cases hc

theorem Image.exists_hidden (h : Image hidden n ss is n')
    (hc : (Stmt.partsOfBlock ss).any Stmt.isConditional = true) :
    ∃ d ∈ hidden, d ∈ (Program.goto is).names := by
  induction h with
  | nil n => cases hc
  | assign _ ih =>
      obtain ⟨d, hd, hnames⟩ := ih hc
      exact ⟨d, hd, List.mem_append_right _ hnames⟩
  | whileDo _ hd _ _ _ _ => exact ⟨_, hd, mem_names_loopCode.mpr (.inr (.inr (.inl rfl)))⟩
  | ifThen _ hd _ _ _ _ _ _ _ =>
      exact ⟨_, hd, mem_names_branchCode.mpr (.inr (.inr (.inr (.inl rfl))))⟩

theorem gains_of_whileToGoto {reserved : List String} {q : Program}
    (hq : (Program.whileDo ss).whileToGoto reserved = .ok q) :
    (Program.whileDo ss).Gains reserved
      (if (Program.whileDo ss).hasConditional then 1 else 0) q := by
  obtain ⟨is, n', rfl, himage, hnew⟩ := image_of_whileToGoto hq
  cases hc : (Program.whileDo ss).hasConditional with
  | false =>
      have hsame : (Program.goto is).names = (Program.whileDo ss).names := by
        show Stmt.namesOfBlock (is.map Instruction.statement) = Stmt.namesOfBlock ss
        rw [himage.map_statement hc]
      refine .zero fun x => ?_
      rw [mem_names_append_halt, hsame]
  | true =>
      obtain ⟨d, hd, hnames⟩ := himage.exists_hidden hc
      have hone : ∀ x ∈ idleVariables ss reserved, x = d := fun x hx =>
        Option.some.inj ((Option.mem_toList.mp hx).symm.trans (Option.mem_toList.mp hd))
      refine .one (hnew d hd) fun x => ?_
      rw [mem_names_append_halt]
      constructor
      · exact fun hx => (himage.names_cases hx).imp_right (hone x)
      · rintro (hx | rfl)
        · exact himage.mem_names hx
        · exact hnames

end WhileToGoto

/-! ### From GOTO to WHILE -/

namespace GotoToWhile

theorem gains_of_gotoToWhile {is : List Instruction} {reserved : List String} {q : Program}
    (hq : (Program.goto is).gotoToWhile reserved = .ok q) :
    (Program.goto is).Gains reserved (if is.isEmpty then 0 else 1) q := by
  rcases cases_of_gotoToWhile hq with ⟨rfl, rfl, _⟩ | ⟨c, body, hd, rfl, _, hne, hnew⟩
  · exact .zero fun _ => Iff.rfl
  · have hempty : ¬ is.isEmpty = true := fun h => hne (List.isEmpty_iff.mp h)
    rw [if_neg hempty]
    exact .one (hnew c (List.mem_singleton.mpr rfl)) fun x => mem_names_simulationCode hd

end GotoToWhile

/-! ### All compilations -/

namespace Program

/-- Every compilation brings in the new variables that the program needs and no others. -/
theorem gains_of_compile {l l' : Language} {p q : Program} {reserved : List String}
    (hl : p.language = l) (hq : p.compile l l' reserved = .ok q) :
    p.Gains reserved (p.newVariableCount l l') q := by
  subst hl
  cases p with
  | loop ss =>
      cases l' with
      | loop => cases hq
      | whileDo => exact LoopToWhile.gains_of_loopToWhile hq
      | goto =>
          obtain ⟨r, hr, hq⟩ := Except.bind_eq_ok_iff.mp hq
          have hfirst := LoopToWhile.gains_of_loopToWhile hr
          obtain ⟨_, ts, _, _, rfl, himage⟩ := LoopToWhile.image_of_loopToWhile hr
          have hsecond := WhileToGoto.gains_of_whileToGoto hq
          have hcond : (whileDo ts).hasConditional = decide (0 < (loop ss).loopCount) :=
            himage.any_isConditional
          simp only [hcond, decide_eq_true_eq] at hsecond
          exact hfirst.trans hsecond
  | whileDo ss =>
      cases l' with
      | goto => exact WhileToGoto.gains_of_whileToGoto hq
      | loop | whileDo => cases hq
  | goto is =>
      cases l' with
      | whileDo => exact GotoToWhile.gains_of_gotoToWhile hq
      | loop | goto => cases hq

/-- New names never collide.  A compiled program has the variables of the program and as many new
ones as are needed, which are none of the reserved names, whatever these look like; and variables
and labels may be drawn in any order and number without one that comes twice or was in use, each
call giving one as long as the indices can be written. -/
theorem new_names_distinct {l : Language} {text : String} {p : Program}
    (hp : parse l text = .ok p) (reserved : List String) :
    (∀ l' q, p.compile l l' reserved = .ok q →
        p.Gains reserved (p.newVariableCount l l') q) ∧
      ∀ f, Fresh.above (p.names ++ reserved) = .ok f → ∀ calls,
        (Fresh.draw calls f).newVariables.Nodup ∧
          (∀ x ∈ (Fresh.draw calls f).newVariables, x ∉ p.names ∧ x ∉ reserved) ∧
          (Fresh.draw calls f).newLabels.Nodup ∧
          (f.nextVariable + calls.count .newVariable ≤ Numeral.bound →
            (Fresh.draw calls f).newVariables.length = calls.count .newVariable ∧
              (Fresh.draw calls f).newLabels.length = calls.count .newLabel) := by
  refine ⟨fun l' q hq => gains_of_compile (language_of_parse hp) hq, fun f hf calls => ?_⟩
  obtain ⟨hvariables, hout, hlabels⟩ := Fresh.draw_of_above hf calls
  refine ⟨hvariables, fun x hx => ?_, hlabels, Fresh.length_draw⟩
  have hx' := hout x hx
  rwa [List.mem_append, not_or] at hx'

/-- Reserved names with other digits than `0` to `9` and with leading zeros have indices too: both
loops get a counter, and the idle instructions a variable, above twelve. -/
theorem new_names_distinct_other_digits :
    ∃ p q f, parse .loop "LOOP x1 DO LOOP y DO y := y + 1; END END" = .ok p ∧
      p.compile .loop .goto ["x٣", "x0012", "z"] = .ok q ∧
      Fresh.above (p.names ++ ["x٣", "x0012", "z"]) = .ok f ∧
      p.Gains ["x٣", "x0012", "z"] 3 q ∧
      (Fresh.draw [.newVariable, .newLabel, .newVariable, .newLabel] f).newLabels.Nodup ∧
      "x15" ∈ q.names := by
  obtain ⟨p, hp, hrest⟩ : ∃ p,
      parse .loop "LOOP x1 DO LOOP y DO y := y + 1; END END" = .ok p ∧
      ((p.compile .loop .goto ["x٣", "x0012", "z"]).toOption.any fun q =>
        (Fresh.above (p.names ++ ["x٣", "x0012", "z"])).toOption.any fun _ =>
          decide (p.newVariableCount .loop .goto = 3) && decide ("x15" ∈ q.names)) = true :=
    Except.exists_of_any (by decide +kernel)
  obtain ⟨q, hq, hrest⟩ := Except.exists_of_any hrest
  obtain ⟨f, hf, hrest⟩ := Except.exists_of_any hrest
  rw [Bool.and_eq_true, decide_eq_true_eq, decide_eq_true_eq] at hrest
  obtain ⟨hcount, hx⟩ := hrest
  obtain ⟨hgains, hdraw⟩ := new_names_distinct hp ["x٣", "x0012", "z"]
  have hgains' := hgains .goto q hq
  rw [hcount] at hgains'
  exact ⟨p, q, f, hp, hq, hf, hgains', (hdraw f hf _).2.2.1, hx⟩

end Program

end CounterPrograms
