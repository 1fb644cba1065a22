import CounterPrograms.Proofs.Token.Word

/-!
# The grammar

What words a program consists of, as rules that say nothing of how they are found:

* operand: a number or an identifier;
* expression: an operand, or two with an operator between them;
* condition: two expressions with a comparison between them;
* assignment: `identifier := expression ;`;
* LOOP statement: an assignment, or `LOOP identifier DO statement* END`;
* WHILE statement: an assignment, `WHILE condition DO statement* END`, or
  `IF condition THEN statement* END` with or without `ELSE statement*` before its `END`;
* GOTO statement: an assignment, `GOTO identifier ;`, `IF condition GOTO identifier ;` with or
  without `THEN` before its `GOTO`, or `HALT ;`;
* GOTO instruction: a GOTO statement, with or without `identifier :` before it.
-/

namespace CounterPrograms

namespace Grammar

/-- The words are an operand. -/
inductive IsOperand : List Word → Expr → Prop
  | number (s : String) : IsOperand [.number s] (.num (Numeral.value s.toList))
  | var (x : String) : IsOperand [.identifier x] (.var x)

/-- The words are an expression. -/
inductive IsExpression : List Word → Expr → Prop
  | operand {ws : List Word} {e : Expr} : IsOperand ws e → IsExpression ws e
  | binary {us vs : List Word} {l r : Expr} (o : Arithmetic) :
      IsOperand us l → IsOperand vs r →
      IsExpression (us ++ .operator o :: vs) (.binary l o.symbol r)

/-- The words are a condition. -/
inductive IsCondition : List Word → Condition → Prop
  | comparison {us vs : List Word} {l r : Expr} (o : Comparison) :
      IsExpression us l → IsExpression vs r →
      IsCondition (us ++ .comparison o :: vs) ⟨l, o.symbol, r⟩

/-- The words are an assignment. -/
inductive IsAssignment : List Word → Stmt → Prop
  | assign {ws : List Word} {e : Expr} (x : String) :
      IsExpression ws e →
      IsAssignment (.identifier x :: .assign :: (ws ++ [.semicolon])) (.assign x e)

mutual

/-- The words are a statement of the given language. -/
inductive IsStatement : Language → List Word → Stmt → Prop
  | assignment {l : Language} {ws : List Word} {s : Stmt} : IsAssignment ws s → IsStatement l ws s
  | loop {ws : List Word} {body : List Stmt} (x : String) :
      IsBlock .loop ws body →
      IsStatement .loop
        (.keyword "LOOP" :: .identifier x :: .keyword "DO" :: (ws ++ [.keyword "END"]))
        (.loop x body)
  | whileDo {us ws : List Word} {c : Condition} {body : List Stmt} :
      IsCondition us c → IsBlock .whileDo ws body →
      IsStatement .whileDo
        (.keyword "WHILE" :: (us ++ .keyword "DO" :: (ws ++ [.keyword "END"])))
        (.whileDo c body)
  | ifThen {us ws : List Word} {c : Condition} {t : List Stmt} :
      IsCondition us c → IsBlock .whileDo ws t →
      IsStatement .whileDo
        (.keyword "IF" :: (us ++ .keyword "THEN" :: (ws ++ [.keyword "END"])))
        (.ifThen c t none)
  | ifElse {us ws vs : List Word} {c : Condition} {t e : List Stmt} :
      IsCondition us c → IsBlock .whileDo ws t → IsBlock .whileDo vs e →
      IsStatement .whileDo
        (.keyword "IF" ::
          (us ++ .keyword "THEN" :: (ws ++ .keyword "ELSE" :: (vs ++ [.keyword "END"]))))
        (.ifThen c t (some e))
  | goto (x : String) :
      IsStatement .goto [.keyword "GOTO", .identifier x, .semicolon] (.goto x)
  | ifGoto {us : List Word} {c : Condition} (x : String) :
      IsCondition us c →
      IsStatement .goto
        (.keyword "IF" :: (us ++ [.keyword "GOTO", .identifier x, .semicolon]))
        (.ifGoto c x)
  | ifThenGoto {us : List Word} {c : Condition} (x : String) :
      IsCondition us c →
      IsStatement .goto
        (.keyword "IF" :: (us ++ [.keyword "THEN", .keyword "GOTO", .identifier x, .semicolon]))
        (.ifGoto c x)
  | halt : IsStatement .goto [.keyword "HALT", .semicolon] .halt

/-- The words are statements of the given language, one after the other. -/
inductive IsBlock : Language → List Word → List Stmt → Prop
  | nil (l : Language) : IsBlock l [] []
  | cons {l : Language} {us vs : List Word} {s : Stmt} {ss : List Stmt} :
      IsStatement l us s → IsBlock l vs ss → IsBlock l (us ++ vs) (s :: ss)

end

/-- The words are an instruction. -/
inductive IsInstruction : List Word → Instruction → Prop
  | unlabelled {ws : List Word} {s : Stmt} : IsStatement .goto ws s → IsInstruction ws ⟨s, none⟩
  | labelled {ws : List Word} {s : Stmt} (x : String) :
      IsStatement .goto ws s → IsInstruction (.identifier x :: .colon :: ws) ⟨s, some x⟩

/-- The words are instructions, one after the other. -/
inductive IsInstructions : List Word → List Instruction → Prop
  | nil : IsInstructions [] []
  | cons {us vs : List Word} {i : Instruction} {is : List Instruction} :
      IsInstruction us i → IsInstructions vs is → IsInstructions (us ++ vs) (i :: is)

/-- The words are a program of the given language. -/
inductive IsProgram : Language → List Word → Program → Prop
  | loop {ws : List Word} {ss : List Stmt} : IsBlock .loop ws ss → IsProgram .loop ws (.loop ss)
  | whileDo {ws : List Word} {ss : List Stmt} :
      IsBlock .whileDo ws ss → IsProgram .whileDo ws (.whileDo ss)
  | goto {ws : List Word} {is : List Instruction} :
      IsInstructions ws is → IsProgram .goto ws (.goto is)

/-- A statement begins with a word, and with none that may come behind a block. -/
theorem IsStatement.exists_cons {l : Language} {ws : List Word} {s : Stmt}
    (h : IsStatement l ws s) :
    ∃ a rest, ws = a :: rest ∧ a ≠ .keyword "ELSE" ∧ a ≠ .keyword "END" := by
  cases h with
  | assignment h =>
      cases h with
      | assign x _ => exact ⟨_, _, rfl, nofun, nofun⟩
  | _ => exact ⟨_, _, rfl, by decide, by decide⟩

theorem IsInstruction.ne_nil {ws : List Word} {i : Instruction} (h : IsInstruction ws i) :
    ws ≠ [] := by
  cases h with
  | unlabelled h =>
      obtain ⟨a, rest, rfl, _⟩ := h.exists_cons
      exact nofun
  | labelled x h => exact nofun

end Grammar

end CounterPrograms
