import CounterPrograms.Program.Names

/-!
# Blocks of statements

Statements hold blocks and blocks hold statements, so facts about programs are proved of blocks, by
`Stmt.blockInduction`.  The module also says what the programs of the structured languages are made
of (`Loop.Block`, `While.Block`), lists the statements at all depths (`Stmt.partsOfBlock`) and the
numbers that are written in a program (`Program.literals`).
-/

namespace CounterPrograms

/-! ### Induction -/

namespace Stmt

/-- What holds of the empty block, and of every block whose first statement is put before a block of
which it holds and is made of blocks of which it holds, holds of all blocks. -/
@[elab_as_elim]
theorem blockInduction {P : List Stmt → Prop} (nil : P [])
    (assign : ∀ x e rest, P rest → P (.assign x e :: rest))
    (loop : ∀ v body rest, P body → P rest → P (.loop v body :: rest))
    (whileDo : ∀ c body rest, P body → P rest → P (.whileDo c body :: rest))
    (ifThen : ∀ c t rest, P t → P rest → P (.ifThen c t none :: rest))
    (ifElse : ∀ c t e rest, P t → P e → P rest → P (.ifThen c t (some e) :: rest))
    (goto : ∀ l rest, P rest → P (.goto l :: rest))
    (ifGoto : ∀ c l rest, P rest → P (.ifGoto c l :: rest))
    (halt : ∀ rest, P rest → P (.halt :: rest))
    (foreign : ∀ f rest, P rest → P (.foreign f :: rest)) : ∀ ss, P ss
  | [] => nil
  | s :: rest => by
      have hrest : P rest :=
        blockInduction nil assign loop whileDo ifThen ifElse goto ifGoto halt foreign rest
      match s with
      | .assign x e => exact assign x e rest hrest
      | .loop v body =>
          exact loop v body rest
            (blockInduction nil assign loop whileDo ifThen ifElse goto ifGoto halt foreign body)
            hrest
      | .whileDo c body =>
          exact whileDo c body rest
            (blockInduction nil assign loop whileDo ifThen ifElse goto ifGoto halt foreign body)
            hrest
      | .ifThen c t none =>
          exact ifThen c t rest
            (blockInduction nil assign loop whileDo ifThen ifElse goto ifGoto halt foreign t)
            hrest
      | .ifThen c t (some e) =>
          exact ifElse c t e rest
            (blockInduction nil assign loop whileDo ifThen ifElse goto ifGoto halt foreign t)
            (blockInduction nil assign loop whileDo ifThen ifElse goto ifGoto halt foreign e)
            hrest
      | .goto l => exact goto l rest hrest
      | .ifGoto c l => exact ifGoto c l rest hrest
      | .halt => exact halt rest hrest
      | .foreign f => exact foreign f rest hrest

theorem namesOfBlock_append (ss ts : List Stmt) :
    namesOfBlock (ss ++ ts) = namesOfBlock ss ++ namesOfBlock ts := by
  induction ss with
  | nil => rfl
  | cons s ss ih => rw [List.cons_append, namesOfBlock, namesOfBlock, ih, List.append_assoc]

theorem mem_names_ifThen_iff {c : Condition} {t : List Stmt} {e : Option (List Stmt)} {x : String} :
    x ∈ (ifThen c t e).names ↔
      x ∈ c.names ∨ x ∈ namesOfBlock t ∨ x ∈ namesOfBlock (e.getD []) := by
  cases e <;> simp [names, namesOfBlock]

theorem mem_namesOfBlock_iff {ss : List Stmt} {x : String} :
    x ∈ namesOfBlock ss ↔ ∃ s ∈ ss, x ∈ s.names := by
  induction ss with
  | nil => simp [namesOfBlock]
  | cons s ss ih => simp [namesOfBlock, ih]

end Stmt

theorem Program.mem_names_goto_iff {is : List Instruction} {x : String} :
    x ∈ (Program.goto is).names ↔ ∃ i ∈ is, x ∈ i.statement.names := by
  unfold Program.names
  rw [Stmt.mem_namesOfBlock_iff]
  constructor
  · rintro ⟨s, hs, hx⟩
    obtain ⟨i, hi, rfl⟩ := List.mem_map.mp hs
    exact ⟨i, hi, hx⟩
  · rintro ⟨i, hi, hx⟩
    exact ⟨i.statement, List.mem_map.mpr ⟨i, hi, rfl⟩, hx⟩

/-! ### What programs are made of -/

/-- An expression of numbers, variables and the operators `+` and `-`. -/
def Expr.Proper : Expr → Prop
  | num _ | var _ => True
  | binary left op right => left.Proper ∧ (∃ o : Arithmetic, op = o.symbol) ∧ right.Proper
  | foreign _ => False

/-- A condition made of proper expressions and one of the six comparisons. -/
structure Condition.Proper (c : Condition) : Prop where
  left : c.left.Proper
  op : ∃ o : Comparison, c.op = o.symbol
  right : c.right.Proper

/-- The blocks of LOOP programs. -/
inductive Loop.Block : List Stmt → Prop
  | nil : Block []
  | assign {x : String} {e : Expr} {rest : List Stmt} :
      e.Proper → Block rest → Block (.assign x e :: rest)
  | loop {v : String} {body rest : List Stmt} :
      Block body → Block rest → Block (.loop v body :: rest)

/-- The blocks of WHILE programs. -/
inductive While.Block : List Stmt → Prop
  | nil : Block []
  | assign {x : String} {e : Expr} {rest : List Stmt} :
      e.Proper → Block rest → Block (.assign x e :: rest)
  | whileDo {c : Condition} {body rest : List Stmt} :
      c.Proper → Block body → Block rest → Block (.whileDo c body :: rest)
  | ifThen {c : Condition} {t rest : List Stmt} :
      c.Proper → Block t → Block rest → Block (.ifThen c t none :: rest)
  | ifElse {c : Condition} {t e rest : List Stmt} :
      c.Proper → Block t → Block e → Block rest → Block (.ifThen c t (some e) :: rest)

theorem While.Block.of_ifThen {c : Condition} {t rest : List Stmt} {e : Option (List Stmt)}
    (h : Block (.ifThen c t e :: rest)) : c.Proper ∧ Block t ∧ Block (e.getD []) ∧ Block rest := by
  cases h with
  | ifThen hc ht hr => exact ⟨hc, ht, .nil, hr⟩
  | ifElse hc ht he hr => exact ⟨hc, ht, he, hr⟩

theorem While.Block.append {ss ts : List Stmt} (h : Block ss) (h' : Block ts) :
    Block (ss ++ ts) := by
  induction h with
  | nil => exact h'
  | assign he _ ih => exact .assign he ih
  | whileDo hc hb _ _ ih => exact .whileDo hc hb ih
  | ifThen hc ht _ _ ih => exact .ifThen hc ht ih
  | ifElse hc ht he _ _ _ ih => exact .ifElse hc ht he ih

theorem While.Block.of_forall {ss : List Stmt} (h : ∀ s ∈ ss, Block [s]) : Block ss := by
  induction ss with
  | nil => exact .nil
  | cons s ss ih =>
      obtain ⟨hs, hss⟩ := List.forall_mem_cons.mp h
      exact hs.append (ih hss)

/-! ### Statements inside statements -/

mutual

/-- A statement and the statements inside it, at any depth. -/
def Stmt.parts : Stmt → List Stmt
  | .loop counter body => .loop counter body :: Stmt.partsOfBlock body
  | .whileDo condition body => .whileDo condition body :: Stmt.partsOfBlock body
  | .ifThen condition thenBody none => .ifThen condition thenBody none :: Stmt.partsOfBlock thenBody
  | .ifThen condition thenBody (some elseBody) =>
    .ifThen condition thenBody (some elseBody) ::
      (Stmt.partsOfBlock thenBody ++ Stmt.partsOfBlock elseBody)
  | s => [s]
termination_by structural s => s

/-- The statements of a block and those inside them. -/
def Stmt.partsOfBlock : List Stmt → List Stmt
  | [] => []
  | s :: rest => s.parts ++ Stmt.partsOfBlock rest
termination_by structural ss => ss

end

theorem Stmt.mem_parts_self (s : Stmt) : s ∈ s.parts := by
  cases s with
  | ifThen c t e => cases e <;> exact List.mem_cons_self
  | assign | loop | whileDo | goto | ifGoto | halt | foreign => exact List.mem_cons_self

theorem Stmt.mem_partsOfBlock {s : Stmt} {ss : List Stmt} (h : s ∈ ss) : s ∈ partsOfBlock ss := by
  induction ss with
  | nil => cases h
  | cons t ss ih =>
      rcases List.mem_cons.mp h with rfl | h
      · exact List.mem_append_left _ s.mem_parts_self
      · exact List.mem_append_right _ (ih h)

theorem Stmt.names_subset_of_mem {s : Stmt} {ss : List Stmt} (h : s ∈ partsOfBlock ss) :
    s.names ⊆ namesOfBlock ss := by
  induction ss using blockInduction with
  | nil => cases h
  | assign | loop | whileDo | ifThen | ifElse | goto | ifGoto | halt | foreign =>
      grind [partsOfBlock, parts, namesOfBlock, names]

/-- The statements of a program at all depths. -/
def Program.parts : Program → List Stmt
  | .loop statements | .whileDo statements => Stmt.partsOfBlock statements
  | .goto instructions => Stmt.partsOfBlock (instructions.map Instruction.statement)

theorem Program.parts_of_statements (p : Program) {s : Stmt}
    (h : s ∈ Stmt.partsOfBlock p.statements) (hs : ∀ f, s ≠ .foreign f) : s ∈ p.parts := by
  cases p with
  | loop | whileDo => exact h
  | goto => exact absurd (List.mem_singleton.mp h) (hs _)

theorem Program.exists_of_absent? {p : Program} (h : p.absent? = none) : ∃ is, p = .goto is := by
  cases p with
  | loop | whileDo => cases h
  | goto is => exact ⟨is, rfl⟩

theorem Program.parts_of_instructions {is : List Instruction} {i : Instruction} (h : i ∈ is) :
    i.statement ∈ (Program.goto is).parts :=
  Stmt.mem_partsOfBlock (List.mem_map_of_mem h)

theorem Program.names_subset_of_mem {p : Program} {s : Stmt} (h : s ∈ p.parts) :
    s.names ⊆ p.names := by
  cases p <;> exact Stmt.names_subset_of_mem h

/-- Whether a statement is a loop with a counter. -/
def Stmt.isLoop : Stmt → Bool
  | .loop .. => true
  | _ => false

/-- Whether a statement runs its blocks according to a condition. -/
def Stmt.isConditional : Stmt → Bool
  | .whileDo .. | .ifThen .. => true
  | _ => false

/-- The number of the LOOP statements of a program. -/
def Program.loopCount (p : Program) : Nat :=
  (Stmt.partsOfBlock p.statements).countP Stmt.isLoop

/-- Whether a program has a WHILE or an IF. -/
def Program.hasConditional (p : Program) : Bool :=
  (Stmt.partsOfBlock p.statements).any Stmt.isConditional

/-! ### Literals -/

/-- The numbers written in an expression. -/
def Expr.literals : Expr → List Int
  | num n => [n]
  | var _ => []
  | binary left _ right => left.literals ++ right.literals
  | foreign _ => []

/-- The numbers written in a condition. -/
def Condition.literals (c : Condition) : List Int :=
  c.left.literals ++ c.right.literals

mutual

/-- The numbers written in a statement. -/
def Stmt.literals : Stmt → List Int
  | .assign _ value => value.literals
  | .loop _ body => Stmt.literalsOfBlock body
  | .whileDo condition body => condition.literals ++ Stmt.literalsOfBlock body
  | .ifThen condition thenBody none => condition.literals ++ Stmt.literalsOfBlock thenBody
  | .ifThen condition thenBody (some elseBody) =>
    condition.literals ++ Stmt.literalsOfBlock thenBody ++ Stmt.literalsOfBlock elseBody
  | .ifGoto condition _ => condition.literals
  | .goto _ | .halt | .foreign _ => []
termination_by structural s => s

/-- The numbers written in a block. -/
def Stmt.literalsOfBlock : List Stmt → List Int
  | [] => []
  | s :: rest => s.literals ++ Stmt.literalsOfBlock rest
termination_by structural ss => ss

end

/-- The numbers written in a program. -/
def Program.literals : Program → List Int
  | .loop statements | .whileDo statements => Stmt.literalsOfBlock statements
  | .goto instructions => Stmt.literalsOfBlock (instructions.map Instruction.statement)

theorem Stmt.literalsOfBlock_append (ss ts : List Stmt) :
    literalsOfBlock (ss ++ ts) = literalsOfBlock ss ++ literalsOfBlock ts := by
  induction ss with
  | nil => rfl
  | cons s ss ih => rw [List.cons_append, literalsOfBlock, literalsOfBlock, ih, List.append_assoc]

theorem Stmt.mem_literals_ifThen_iff {c : Condition} {t : List Stmt} {e : Option (List Stmt)}
    {n : Int} : n ∈ (ifThen c t e).literals ↔
      n ∈ c.literals ∨ n ∈ literalsOfBlock t ∨ n ∈ literalsOfBlock (e.getD []) := by
  cases e <;> simp [literals, literalsOfBlock]

theorem Stmt.mem_literalsOfBlock_iff {ss : List Stmt} {n : Int} :
    n ∈ literalsOfBlock ss ↔ ∃ s ∈ ss, n ∈ s.literals := by
  induction ss with
  | nil => simp [literalsOfBlock]
  | cons s ss ih => simp [literalsOfBlock, ih]

theorem Stmt.literals_subset_of_mem {s : Stmt} {ss : List Stmt} (h : s ∈ partsOfBlock ss) :
    s.literals ⊆ literalsOfBlock ss := by
  induction ss using blockInduction with
  | nil => cases h
  | assign | loop | whileDo | ifThen | ifElse | goto | ifGoto | halt | foreign =>
      grind [partsOfBlock, parts, literalsOfBlock, literals]

theorem Program.literals_subset_of_mem {p : Program} {s : Stmt} (h : s ∈ p.parts) :
    s.literals ⊆ p.literals := by
  cases p <;> exact Stmt.literals_subset_of_mem h

end CounterPrograms
