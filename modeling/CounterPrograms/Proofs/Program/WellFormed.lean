import CounterPrograms.Proofs.Numeral
import CounterPrograms.Proofs.Program.Parsing

/-!
# Well-formed programs

A program is well-formed if it could be written: its names are identifiers, its numbers are neither
negative nor too large to be written, its expressions have one operator at most, and every statement
is one of its language (`Program.WellFormed`).  Whatever is read from a text is well-formed
(`Program.wellFormed_of_parse`), because this is what the grammar derives from readable words.
-/

namespace CounterPrograms

/-! ### The trees -/

/-- A number that can be written, or a variable. -/
def Expr.IsOperand : Expr → Prop
  | num n => 0 ≤ n ∧ n < Numeral.bound
  | var x => Word.IsIdentifier x
  | binary .. | foreign _ => False

/-- An operand, or two with `+` or `-` between them. -/
def Expr.WellFormed : Expr → Prop
  | binary left op right => left.IsOperand ∧ (∃ o : Arithmetic, op = o.symbol) ∧ right.IsOperand
  | e => e.IsOperand

/-- Two expressions and one of the six comparisons. -/
structure Condition.WellFormed (c : Condition) : Prop where
  left : c.left.WellFormed
  op : ∃ o : Comparison, c.op = o.symbol
  right : c.right.WellFormed

mutual

/-- A statement that can be written in the given language. -/
def Stmt.WellFormed (l : Language) : Stmt → Prop
  | .assign x e => Word.IsIdentifier x ∧ e.WellFormed
  | .loop x body => l = .loop ∧ Word.IsIdentifier x ∧ Stmt.WellFormedBlock l body
  | .whileDo c body => l = .whileDo ∧ c.WellFormed ∧ Stmt.WellFormedBlock l body
  | .ifThen c t none => l = .whileDo ∧ c.WellFormed ∧ Stmt.WellFormedBlock l t
  | .ifThen c t (some e) =>
    l = .whileDo ∧ c.WellFormed ∧ Stmt.WellFormedBlock l t ∧ Stmt.WellFormedBlock l e
  | .goto x => l = .goto ∧ Word.IsIdentifier x
  | .ifGoto c x => l = .goto ∧ c.WellFormed ∧ Word.IsIdentifier x
  | .halt => l = .goto
  | .foreign _ => False
termination_by structural s => s

/-- A block that can be written in the given language. -/
def Stmt.WellFormedBlock (l : Language) : List Stmt → Prop
  | [] => True
  | s :: rest => s.WellFormed l ∧ Stmt.WellFormedBlock l rest
termination_by structural ss => ss

end

/-- A statement of the GOTO language, and a label that can be written if there is one. -/
structure Instruction.WellFormed (i : Instruction) : Prop where
  statement : i.statement.WellFormed .goto
  label : ∀ x ∈ i.label, Word.IsIdentifier x

/-- A program that can be written in the given language. -/
def Program.WellFormed (l : Language) : Program → Prop
  | .loop ss => l = .loop ∧ Stmt.WellFormedBlock l ss
  | .whileDo ss => l = .whileDo ∧ Stmt.WellFormedBlock l ss
  | .goto is => l = .goto ∧ ∀ i ∈ is, i.WellFormed

/-! ### Deciding it -/

section decidable

instance (op : String) : Decidable (∃ o : Arithmetic, op = o.symbol) :=
  decidable_of_iff (∃ o ∈ [Arithmetic.add, .sub], op = o.symbol)
    ⟨fun ⟨o, _, h⟩ => ⟨o, h⟩, fun ⟨o, h⟩ => ⟨o, by cases o <;> simp, h⟩⟩

instance (op : String) : Decidable (∃ o : Comparison, op = o.symbol) :=
  decidable_of_iff (∃ o ∈ [Comparison.eq, .ne, .lt, .gt, .le, .ge], op = o.symbol)
    ⟨fun ⟨o, _, h⟩ => ⟨o, h⟩, fun ⟨o, h⟩ => ⟨o, by cases o <;> simp, h⟩⟩

instance : DecidablePred Expr.IsOperand
  | .num n => inferInstanceAs (Decidable (0 ≤ n ∧ n < Numeral.bound))
  | .var x => inferInstanceAs (Decidable (Word.IsIdentifier x))
  | .binary .. | .foreign _ => inferInstanceAs (Decidable False)

instance : DecidablePred Expr.WellFormed
  | .binary l op r =>
    inferInstanceAs (Decidable (l.IsOperand ∧ (∃ o : Arithmetic, op = o.symbol) ∧ r.IsOperand))
  | .num n => inferInstanceAs (Decidable (Expr.num n).IsOperand)
  | .var x => inferInstanceAs (Decidable (Expr.var x).IsOperand)
  | .foreign f => inferInstanceAs (Decidable (Expr.foreign f).IsOperand)

instance (c : Condition) : Decidable c.WellFormed :=
  decidable_of_iff (c.left.WellFormed ∧ (∃ o : Comparison, c.op = o.symbol) ∧ c.right.WellFormed)
    ⟨fun h => ⟨h.1, h.2.1, h.2.2⟩, fun h => ⟨h.1, h.2, h.3⟩⟩

mutual

/-- Decides whether a statement can be written in the given language. -/
def Stmt.decideWellFormed (l : Language) : (s : Stmt) → Decidable (s.WellFormed l)
  | .assign x e => inferInstanceAs (Decidable (Word.IsIdentifier x ∧ e.WellFormed))
  | .loop x body =>
    have := Stmt.decideWellFormedBlock l body
    inferInstanceAs (Decidable (l = .loop ∧ Word.IsIdentifier x ∧ Stmt.WellFormedBlock l body))
  | .whileDo c body =>
    have := Stmt.decideWellFormedBlock l body
    inferInstanceAs (Decidable (l = .whileDo ∧ c.WellFormed ∧ Stmt.WellFormedBlock l body))
  | .ifThen c t none =>
    have := Stmt.decideWellFormedBlock l t
    inferInstanceAs (Decidable (l = .whileDo ∧ c.WellFormed ∧ Stmt.WellFormedBlock l t))
  | .ifThen c t (some e) =>
    have := Stmt.decideWellFormedBlock l t
    have := Stmt.decideWellFormedBlock l e
    inferInstanceAs (Decidable (l = .whileDo ∧ c.WellFormed ∧ Stmt.WellFormedBlock l t ∧
      Stmt.WellFormedBlock l e))
  | .goto x => inferInstanceAs (Decidable (l = .goto ∧ Word.IsIdentifier x))
  | .ifGoto c x => inferInstanceAs (Decidable (l = .goto ∧ c.WellFormed ∧ Word.IsIdentifier x))
  | .halt => inferInstanceAs (Decidable (l = .goto))
  | .foreign _ => inferInstanceAs (Decidable False)
termination_by structural s => s

/-- Decides whether a block can be written in the given language. -/
def Stmt.decideWellFormedBlock (l : Language) :
    (ss : List Stmt) → Decidable (Stmt.WellFormedBlock l ss)
  | [] => inferInstanceAs (Decidable True)
  | s :: rest =>
    have := Stmt.decideWellFormed l s
    have := Stmt.decideWellFormedBlock l rest
    inferInstanceAs (Decidable (s.WellFormed l ∧ Stmt.WellFormedBlock l rest))
termination_by structural ss => ss

end

instance (l : Language) : DecidablePred (Stmt.WellFormed l) :=
  Stmt.decideWellFormed l

instance (l : Language) : DecidablePred (Stmt.WellFormedBlock l) :=
  Stmt.decideWellFormedBlock l

instance (i : Instruction) : Decidable i.WellFormed :=
  decidable_of_iff (i.statement.WellFormed .goto ∧ ∀ x ∈ i.label, Word.IsIdentifier x)
    ⟨fun h => ⟨h.1, h.2⟩, fun h => ⟨h.1, h.2⟩⟩

instance (l : Language) : DecidablePred (Program.WellFormed l)
  | .loop ss => inferInstanceAs (Decidable (l = .loop ∧ Stmt.WellFormedBlock l ss))
  | .whileDo ss => inferInstanceAs (Decidable (l = .whileDo ∧ Stmt.WellFormedBlock l ss))
  | .goto is => inferInstanceAs (Decidable (l = .goto ∧ ∀ i ∈ is, i.WellFormed))

end decidable

theorem Expr.IsOperand.wellFormed {e : Expr} (h : e.IsOperand) : e.WellFormed := by
  cases e with
  | num n => exact h
  | var x => exact h
  | binary l op r => exact h.elim
  | foreign f => exact h.elim

theorem Stmt.wellFormedBlock_iff {l : Language} {ss : List Stmt} :
    WellFormedBlock l ss ↔ ∀ s ∈ ss, s.WellFormed l := by
  induction ss with
  | nil => simp [WellFormedBlock]
  | cons s ss ih => simp [WellFormedBlock, ih]

/-! ### What the grammar derives -/

namespace Grammar

theorem isIdentifier_of_readable {x : String} (h : (Word.identifier x).IsReadable) :
    Word.IsIdentifier x := by
  cases h.isLexeme with
  | identifier hx => exact hx

theorem IsOperand.tree {ws : List Word} {e : Expr} (h : IsOperand ws e)
    (hread : ∀ a ∈ ws, a.IsReadable) : e.IsOperand := by
  cases h with
  | number s =>
      have hs := hread _ (List.mem_singleton_self _)
      cases hlex : hs.isLexeme with
      | number hne hdigits =>
          refine ⟨Int.natCast_nonneg _, Int.ofNat_lt.mpr (Numeral.value_lt_bound hdigits ?_)⟩
          rw [String.length_toList]
          exact hs.length_le rfl
  | var x => exact isIdentifier_of_readable (hread _ (List.mem_singleton_self _))

theorem IsExpression.wellFormed {ws : List Word} {e : Expr} (h : IsExpression ws e)
    (hread : ∀ a ∈ ws, a.IsReadable) : e.WellFormed := by
  cases h with
  | operand h => exact (h.tree hread).wellFormed
  | binary o hl hr =>
      simp only [List.forall_mem_append, List.forall_mem_cons] at hread
      exact ⟨hl.tree hread.1, ⟨o, rfl⟩, hr.tree hread.2.2⟩

theorem IsCondition.wellFormed {ws : List Word} {c : Condition} (h : IsCondition ws c)
    (hread : ∀ a ∈ ws, a.IsReadable) : c.WellFormed := by
  cases h with
  | comparison o hl hr =>
      simp only [List.forall_mem_append, List.forall_mem_cons] at hread
      exact ⟨hl.wellFormed hread.1, ⟨o, rfl⟩, hr.wellFormed hread.2.2⟩

theorem IsAssignment.wellFormed {l : Language} {ws : List Word} {s : Stmt} (h : IsAssignment ws s)
    (hread : ∀ a ∈ ws, a.IsReadable) : s.WellFormed l := by
  cases h with
  | assign x he =>
      simp only [List.forall_mem_append, List.forall_mem_cons] at hread
      exact ⟨isIdentifier_of_readable hread.1, he.wellFormed hread.2.2.1⟩

mutual

theorem IsStatement.wellFormed {l : Language} {ws : List Word} {s : Stmt} (h : IsStatement l ws s)
    (hread : ∀ a ∈ ws, a.IsReadable) : s.WellFormed l := by
  match h with
  | .assignment h => exact h.wellFormed hread
  | .loop x hb =>
      simp only [List.forall_mem_append, List.forall_mem_cons] at hread
      exact ⟨rfl, isIdentifier_of_readable hread.2.1, hb.wellFormed hread.2.2.2.1⟩
  | .whileDo hc hb =>
      simp only [List.forall_mem_append, List.forall_mem_cons] at hread
      exact ⟨rfl, hc.wellFormed hread.2.1, hb.wellFormed hread.2.2.2.1⟩
  | .ifThen hc ht =>
      simp only [List.forall_mem_append, List.forall_mem_cons] at hread
      exact ⟨rfl, hc.wellFormed hread.2.1, ht.wellFormed hread.2.2.2.1⟩
  | .ifElse hc ht he =>
      simp only [List.forall_mem_append, List.forall_mem_cons] at hread
      exact ⟨rfl, hc.wellFormed hread.2.1, ht.wellFormed hread.2.2.2.1,
        he.wellFormed hread.2.2.2.2.2.1⟩
  | .goto x =>
      simp only [List.forall_mem_cons] at hread
      exact ⟨rfl, isIdentifier_of_readable hread.2.1⟩
  | .ifGoto x hc =>
      simp only [List.forall_mem_append, List.forall_mem_cons] at hread
      exact ⟨rfl, hc.wellFormed hread.2.1, isIdentifier_of_readable hread.2.2.2.1⟩
  | .ifThenGoto x hc =>
      simp only [List.forall_mem_append, List.forall_mem_cons] at hread
      exact ⟨rfl, hc.wellFormed hread.2.1, isIdentifier_of_readable hread.2.2.2.2.1⟩
  | .halt => exact rfl

theorem IsBlock.wellFormed {l : Language} {ws : List Word} {ss : List Stmt} (h : IsBlock l ws ss)
    (hread : ∀ a ∈ ws, a.IsReadable) : Stmt.WellFormedBlock l ss := by
  match h with
  | .nil _ => exact True.intro
  | .cons hs hss =>
      rw [List.forall_mem_append] at hread
      exact ⟨hs.wellFormed hread.1, hss.wellFormed hread.2⟩

end

theorem IsInstruction.wellFormed {ws : List Word} {i : Instruction} (h : IsInstruction ws i)
    (hread : ∀ a ∈ ws, a.IsReadable) : i.WellFormed := by
  cases h with
  | unlabelled hs => exact ⟨hs.wellFormed hread, nofun⟩
  | labelled x hs =>
      simp only [List.forall_mem_cons] at hread
      refine ⟨hs.wellFormed hread.2.2, fun y hy => ?_⟩
      obtain rfl := Option.some.inj hy
      exact isIdentifier_of_readable hread.1

theorem IsInstructions.wellFormed {ws : List Word} {is : List Instruction}
    (h : IsInstructions ws is) (hread : ∀ a ∈ ws, a.IsReadable) : ∀ i ∈ is, i.WellFormed := by
  induction h with
  | nil => exact nofun
  | cons hi _ ih =>
      rw [List.forall_mem_append] at hread
      rw [List.forall_mem_cons]
      exact ⟨hi.wellFormed hread.1, ih hread.2⟩

theorem IsProgram.wellFormed {l : Language} {ws : List Word} {p : Program} (h : IsProgram l ws p)
    (hread : ∀ a ∈ ws, a.IsReadable) : p.WellFormed l := by
  cases h with
  | loop h => exact ⟨rfl, h.wellFormed hread⟩
  | whileDo h => exact ⟨rfl, h.wellFormed hread⟩
  | goto h => exact ⟨rfl, h.wellFormed hread⟩

end Grammar

/-- Whatever is read from a text is well-formed. -/
theorem Program.wellFormed_of_parse {l : Language} {text : String} {p : Program}
    (h : parse l text = .ok p) : p.WellFormed l := by
  cases hts : Token.ofText text with
  | error e =>
      rw [parse, hts] at h
      cases h
  | ok ts =>
      obtain ⟨r, hr, rfl⟩ := (parse_eq_ok_iff hts).mp h
      obtain ⟨hread, hiff⟩ := Parser.isProgram_iff_of_ok hts hr
      exact ((hiff _).mpr rfl).wellFormed hread

end CounterPrograms
