import CounterPrograms.Proofs.Program.Reads

/-!
# What the parser reads

Every function of the parser is right about the prospect that its phrase comes next
(`Parser.reads_operand` to `Parser.reads_program`): it reads what the rules of the grammar derive,
and stops at the first word with which no phrase and nothing behind it goes on.

An expression is over at a word that is no operator, so what comes behind it must not begin with one
(`Prospect.Avoids`).  A block is over where its end is met (`BlockEnd.Meets`), and no statement
begins with such an end.
-/

namespace CounterPrograms

open Token Grammar

namespace Parser

open Prospect

variable {α : Type} {n : Nat} {ts ts' : List Token}

/-! ### Expressions and conditions -/

theorem reads_operand {K : Expr → Prospect} (hK : ∀ e, (K e).Completable) :
    Reads (phrase IsOperand K) K ts (operand ts) := by
  have hL : (phrase IsOperand K).Completable := .operand hK
  rw [phrase_operand] at hL ⊢
  unfold operand
  split
  · next t rest =>
      split
      · next hk =>
          have hne : t.kind ≠ .endOfText := by simp [hk]
          have hwords := words_cons_of_ne hne rest
          have hb : t.word = .number t.text := congrArg (Word.mk · t.text) hk
          refine .inl (.oneOf (by simp [hwords, hb, Word.number, Word.identifier]) _) ?_
          by_cases hlimit : t.text.length ≤ Numeral.limit
          · have hread : Numeral.read t.text.toList = .ok (Numeral.value t.text.toList) :=
              if_pos (String.length_toList ▸ hlimit)
            rw [hread]
            exact .next (fun _ _ h => congrArg Word.text h) hb hne (fun _ => hlimit) .pure
          · have hread : Numeral.read t.text.toList =
                .error (.tooManyDigits t.text.toList.length) :=
              if_neg (String.length_toList ▸ hlimit)
            rw [hread]
            exact .tooLong hk hlimit _
      · next hk =>
          have hne : t.kind ≠ .endOfText := by simp [hk]
          have hwords := words_cons_of_ne hne rest
          have hb : t.word = .identifier t.text := congrArg (Word.mk · t.text) hk
          refine .inr (.oneOf (by simp [hwords, hb, Word.number, Word.identifier]) _) ?_
          refine .next (fun _ _ h => congrArg Word.text h) hb hne ?_ .pure
          simp [hk]
      · next hnumber hidentifier =>
          refine .refuse _ hL (.either (.oneOf ?_ _) (.oneOf ?_ _))
          · exact fun b hb => hnumber (congrArg Word.kind (word_of_head? hb))
          · exact fun b hb => hidentifier (congrArg Word.kind (word_of_head? hb))
  · exact .refuse _ hL (.either (.oneOf (by simp) _) (.oneOf (by simp) _))

theorem reads_expression {K : Expr → Prospect} (hK : ∀ e, (K e).Completable)
    (hcloses : ∀ e, (K e).Avoids (·.kind = .operator)) :
    Reads (phrase IsExpression K) K ts (expression ts) := by
  rw [phrase_expression]
  refine .bind (reads_operand fun l => .inl (hK l)) fun left => ?_
  -- The parser asks for the kind alone; of lexemes, only the two signs are of this kind.
  apply Reads.of_isLexeme
  intro hlex
  split
  · next hop =>
      obtain ⟨o, ho⟩ := (check_operator_iff hlex).mp hop
      refine .inr (.of_avoids (hcloses _) ho rfl) ?_
      refine .operator (fun o => .operand fun r => hK _) fun op o ho => ?_
      refine .bind (reads_operand fun r => hK _) fun right => ?_
      refine .noOperator (hcloses _) (hK _) ?_
      rw [← ho]
      exact .pure
  · next hop =>
      refine .inl (.oneOf (fun o ho => hop ((check_operator_iff hlex).mpr ⟨o, ho⟩)) _) ?_
      exact .pure

theorem reads_condition {K : Condition → Prospect} (hK : ∀ c, (K c).Completable)
    (hcloses : ∀ c, (K c).Avoids (·.kind = .operator)) :
    Reads (phrase IsCondition K) K ts (condition ts) := by
  rw [phrase_condition]
  refine .bind (reads_expression (fun l => ?_) fun l => .oneOf nofun _) fun left => ?_
  · exact .oneOf .eq (.comparison .eq) (.expression fun r => hK _)
  · refine .comparison (fun o => .expression fun r => hK _) fun op o ho => ?_
    refine .bind (reads_expression (fun r => hK _) fun r => hcloses _) fun right => ?_
    rw [← ho]
    exact .pure

/-! ### Statements without blocks -/

/-- What is read behind the first word of an assignment, however many tokens it took. -/
theorem reads_assigned {K : Stmt → Prospect} (hK : ∀ s, (K s).Completable) (x : String)
    (taken : ∀ (sign : Reading 1 ts Token) (value : Reading 1 sign.rest Expr)
      (closing : Reading 1 value.rest Token), closing.rest.length + n ≤ ts'.length) :
    Reads (assigned K x) K ts (do
      let sign ← expect .assign none ts
      let value ← expression sign.rest
      let closing ← expect .semicolon none value.rest
      return (⟨.assign x value.value, closing.rest, taken sign value closing⟩ :
        Reading n ts' Stmt)) := by
  refine .assign (.expression fun e => .word .semicolon (hK _)) fun sign => ?_
  refine .bind (reads_expression (fun e => .word .semicolon (hK _)) fun e => ?_) fun value => ?_
  · exact .word (by decide) _
  · exact .semicolon (hK _) fun closing => .pure

theorem reads_assignment {K : Stmt → Prospect} (hK : ∀ s, (K s).Completable) :
    Reads (phrase IsAssignment K) K ts (assignment ts) := by
  rw [phrase_assignment]
  exact .identifier (.assigned hK) fun target => reads_assigned hK _ _

theorem reads_jump {K : String → Prospect} (hK : ∀ x, (K x).Completable) :
    Reads (Prospect.jump K) K ts (jump ts) := by
  unfold jump
  refine .identifier (fun x => .word .semicolon (hK x)) fun target => ?_
  exact .semicolon (hK _) fun closing => .pure

theorem avoids_identifier {L M N : Prospect} :
    (either (.word (.keyword "GOTO") L) (either (.word (.keyword "IF") M)
      (.word (.keyword "HALT") N))).Avoids (·.kind = .identifier) :=
  .either (.word (by decide) _) (.either (.word (by decide) _) (.word (by decide) _))

theorem reads_gotoStatement {K : Stmt → Prospect} (hK : ∀ s, (K s).Completable) :
    Reads (phrase (IsStatement .goto) K) K ts (gotoStatement ts) := by
  have hgoto : ∀ c, (Prospect.word (.keyword "GOTO")
      (.jump fun x => K (.ifGoto c x))).Completable :=
    fun c => .keyword (by decide) (.jump fun x => hK _)
  have hhalt : (Prospect.word (.keyword "HALT") (.word .semicolon (K .halt))).Completable :=
    .keyword (by decide) (.word .semicolon (hK _))
  rw [phrase_gotoStatement]
  unfold gotoStatement
  refine .ifIdentifier avoids_identifier (reads_assignment hK) ?_
  refine .ifWord (.either (.word (by decide) _) (.word (by decide) _)) ?_ ?_
  · refine .keyword (by decide) (.jump fun x => hK _) fun opening => ?_
    exact .bind (reads_jump fun x => hK _) fun target => .pure
  refine .ifWord (.word (by decide) _) ?_ ?_
  · refine .keyword (by decide) (.condition fun c => .inr (hgoto c)) fun opening => ?_
    refine .bind (reads_condition (fun c => .inr (hgoto c)) fun c => ?_) fun test => ?_
    · exact .either (.word (by decide) _) (.word (by decide) _)
    · refine .optionalWord (.word (by decide) _) ?_
      refine .keyword (by decide) (.jump fun x => hK _) fun goto => ?_
      exact .bind (reads_jump fun x => hK _) fun target => .pure
  split
  · refine .keyword (by decide) (.word .semicolon (hK _)) fun opening => ?_
    exact .semicolon (hK _) fun closing => .pure
  · next h => exact .refuse _ hhalt (.word (fun hk => h (checkWord_iff.mpr hk)) _)

/-! ### Statements and blocks -/

/-- The choice that comes last: an assignment, or nothing that could be read. -/
theorem reads_lastAssignment {K : Stmt → Prospect} (hK : ∀ s, (K s).Completable)
    (e : Expectation) : Reads (phrase IsAssignment K) K ts
      (if check .identifier none ts then assignment ts else refuse e ts) := by
  split
  · exact reads_assignment hK
  · next h =>
      refine .refuse e (.assignment hK) (.assignment (fun x hx => ?_) K)
      exact h (check_identifier_iff.mpr ⟨x, hx⟩)

mutual

theorem reads_statement (l : Language) {K : Stmt → Prospect} (hK : ∀ s, (K s).Completable)
    (ts : List Token) : Reads (phrase (IsStatement l) K) K ts (statement (some l) ts) := by
  have hEnd : ∀ s, (Prospect.word (.keyword "END") (K s)).Completable :=
    fun s => .keyword (by decide) (hK s)
  match l with
  | .goto =>
      rw [statement]
      exact reads_gotoStatement hK
  | .loop =>
      rw [phrase_loopStatement, statement]
      refine .ifWord (.assignment (fun _ => nofun) _) ?_ (reads_lastAssignment hK _)
      have hDo : ∀ x, (Prospect.word (.keyword "DO") (.phrase (IsBlock .loop) fun body =>
          .word (.keyword "END") (K (.loop x body)))).Completable :=
        fun x => .keyword (by decide) (.block (hEnd _))
      refine .keyword (by decide) (.identifier hDo) fun opening => ?_
      refine .identifier hDo fun counter => .keyword (by decide) (.block (hEnd _)) fun doWord => ?_
      have shorter : doWord.rest.length < ts.length := by
        have := opening.taken
        have := counter.taken
        have := doWord.taken
        omega
      refine .bind (reads_block .loop (fun _ => hEnd _) BlockEnd.isProper_end
        (fun _ => BlockEnd.meets_of_word (by decide)) doWord.rest) fun body => ?_
      exact .keyword (by decide) (hK _) fun closing => .pure
  | .whileDo =>
      rw [phrase_whileStatement, statement]
      refine .ifWord (.either (.word (by decide) _) (.assignment (fun _ => nofun) _)) ?_ ?_
      · have hDo : ∀ c, (Prospect.word (.keyword "DO") (.phrase (IsBlock .whileDo) fun body =>
            .word (.keyword "END") (K (.whileDo c body)))).Completable :=
          fun c => .keyword (by decide) (.block (hEnd _))
        refine .keyword (by decide) (.condition hDo) fun opening => ?_
        refine .bind (reads_condition hDo fun c => .word (by decide) _) fun test => ?_
        refine .keyword (by decide) (.block (hEnd _)) fun doWord => ?_
        have shorter : doWord.rest.length < ts.length := by
          have := opening.taken
          have := test.taken
          have := doWord.taken
          omega
        refine .bind (reads_block .whileDo (fun _ => hEnd _) BlockEnd.isProper_end
          (fun _ => BlockEnd.meets_of_word (by decide)) doWord.rest) fun body => ?_
        exact .keyword (by decide) (hK _) fun closing => .pure
      refine .ifWord (.assignment (fun _ => nofun) _) ?_ (reads_lastAssignment hK _)
      have hThen : ∀ c, (Prospect.word (.keyword "THEN")
          (.phrase (IsBlock .whileDo) fun t => .either
            (.word (.keyword "ELSE") (.phrase (IsBlock .whileDo) fun e =>
              .word (.keyword "END") (K (.ifThen c t (some e)))))
            (.word (.keyword "END") (K (.ifThen c t none))))).Completable :=
        fun c => .keyword (by decide) (.block (.inr (hEnd _)))
      refine .keyword (by decide) (.condition hThen) fun opening => ?_
      refine .bind (reads_condition hThen fun c => .word (by decide) _) fun test => ?_
      refine .keyword (by decide) (.block (.inr (hEnd _))) fun thenWord => ?_
      have shorter : thenWord.rest.length < ts.length := by
        have := opening.taken
        have := test.taken
        have := thenWord.taken
        omega
      refine .bind (reads_block .whileDo (fun t => .inr (hEnd _)) ?_ ?_ thenWord.rest)
        fun thenBody => ?_
      · simp [BlockEnd.IsProper]
      · rintro t w p (h | h)
        · exact BlockEnd.meets_of_word (by decide) w p h
        · exact BlockEnd.meets_of_word (by decide) w p h
      refine .ifWord (.word (by decide) _) ?_ ?_
      · refine .keyword (by decide) (.block (hEnd _)) fun elseWord => ?_
        have shorter' : elseWord.rest.length < ts.length := by
          have := thenBody.taken
          have := elseWord.taken
          omega
        refine .bind (reads_block .whileDo (fun _ => hEnd _) BlockEnd.isProper_end
          (fun _ => BlockEnd.meets_of_word (by decide)) elseWord.rest) fun elseBody => ?_
        exact .keyword (by decide) (hK _) fun closing => .pure
      · exact .keyword (by decide) (hK _) fun closing => .pure
termination_by 2 * ts.length

theorem reads_block (l : Language) {e : BlockEnd} {K : List Stmt → Prospect}
    (hK : ∀ ss, (K ss).Completable) (he : e.IsProper) (hend : ∀ ss w p, K ss w p → e.Meets w.head?)
    (ts : List Token) : Reads (phrase (IsBlock l) K) K ts (block (some l) e ts) := by
  rw [phrase_block, block]
  refine .reached (hend []) he.not_meets (hK []) .pure ?_
  have hrest : ∀ s, (phrase (IsBlock l) fun ss => K (s :: ss)).Completable := fun s => .block (hK _)
  refine .bind (reads_statement l hrest ts) fun first => ?_
  have shorter : first.rest.length < ts.length := by
    have := first.taken
    omega
  refine .bind (reads_block l (fun ss => hK _) he (fun ss => hend _) first.rest) fun others => ?_
  exact .pure
termination_by 2 * ts.length + 1

end

/-! ### Instructions and programs -/

/-- Behind an identifier at the head of an instruction comes the rest of an assignment, or the colon
of a label. -/
theorem reads_behindIdentifier {K : Instruction → Prospect} {M : α → Prospect} {t : Token}
    {x : Except Stop (Reading n ts' α)} (ht : t.kind = .identifier)
    (hx : Reads (.either (assigned (fun s => K ⟨s, none⟩) t.text)
      (.word .colon (.phrase (IsStatement .goto) fun s => K ⟨s, some t.text⟩))) M ts x) :
    Reads (phrase IsInstruction K) M (t :: ts) x := by
  have hword : t.word = .identifier t.text := congrArg (Word.mk · t.text) ht
  have hne : t.kind ≠ .endOfText := by simp [ht]
  have hnext := Reads.next (M := fun x => .either (assigned (fun s => K ⟨s, none⟩) x)
      (.word .colon (.phrase (IsStatement .goto) fun s => K ⟨s, some x⟩)))
    (fun _ _ h => congrArg Word.text h) hword hne (by simp [ht]) hx
  rw [phrase_instruction, phrase_gotoStatement, phrase_assignment]
  refine hnext.widen ?_ ?_
  · rintro w p ⟨y, rest, rfl, h | h⟩
    · exact .inl (.inl ⟨y, rest, rfl, h⟩)
    · exact .inr ⟨y, rest, rfl, h⟩
  · rintro w p hw ((⟨y, rest, rfl, h⟩ | h) | ⟨y, rest, rfl, h⟩)
    · exact ⟨y, rest, rfl, .inl h⟩
    · rw [words_cons_of_ne hne, List.head?_cons, hword] at hw
      exact absurd rfl (avoids_identifier w p h _ hw)
    · exact ⟨y, rest, rfl, .inr h⟩

theorem label_eq_none {ts : List Token}
    (h : ∀ t c rest, ts = t :: c :: rest → t.kind = .identifier → c.kind ≠ .colon) :
    label ts = ⟨none, ts, Nat.le_refl _⟩ := by
  unfold label
  split
  · next l colon rest => exact if_neg fun hc => h l colon rest rfl hc.1 hc.2
  · rfl

theorem instruction_eq {ts : List Token} {l : Reading 0 ts (Option String)} (h : label ts = l) :
    instruction ts = (do
      let s ← statement (some .goto) l.rest
      return ⟨⟨s.value, l.value⟩, s.rest, by have := l.taken; have := s.taken; omega⟩) := by
  subst h
  rfl

theorem reads_instruction {K : Instruction → Prospect} (hK : ∀ i, (K i).Completable)
    (ts : List Token) : Reads (phrase IsInstruction K) K ts (instruction ts) := by
  by_cases hident : check .identifier none ts = true
  · cases ts with
    | nil => cases hident
    | cons t rest =>
        have ht : t.kind = .identifier := isOf_none_iff.mp hident
        apply reads_behindIdentifier ht
        -- The parser looks at the second token to see whether the first one is a label, but stops
        -- at the second one if it is neither a colon nor the sign of an assignment.
        by_cases hcolon : check .colon none rest = true
        · cases rest with
          | nil => cases hcolon
          | cons c rest =>
              have hc : c.kind = .colon := isOf_none_iff.mp hcolon
              have hlabel : label (t :: c :: rest) = ⟨some t.text, rest, _⟩ := if_pos ⟨ht, hc⟩
              have hne : c.kind ≠ .endOfText := by simp [hc]
              rw [instruction_eq hlabel]
              apply Reads.of_isLexeme
              intro hlex
              have hword : c.word = .colon :=
                (hlex c.word (words_cons_of_ne hne rest ▸ List.mem_cons_self)).eq_colon hc
              have hnext : (words (c :: rest)).head? = some .colon := by
                rw [words_cons_of_ne hne, List.head?_cons, hword]
              rw [← hword]
              refine .inr (.word (by simp [hnext, Word.colon, Word.assign]) _) ?_
              refine .skip hne (by simp [hc]) ?_
              exact .bind (reads_statement .goto (fun s => hK _) rest) fun s => .pure
        · have hlabel : label (t :: rest) = ⟨none, t :: rest, Nat.le_refl _⟩ := by
            refine label_eq_none ?_
            rintro _ c rest' heq _ hc
            obtain ⟨rfl, rfl⟩ := List.cons.inj heq
            exact hcolon (isOf_none_iff.mpr hc)
          have hother : (words rest).head? ≠ some .colon := by
            intro h
            rw [check_eq .colon _ nofun, h] at hcolon
            exact hcolon rfl
          rw [instruction_eq hlabel, statement, gotoStatement, if_pos hident, assignment]
          have hexpect : expect .identifier none (t :: rest) = .ok ⟨t, rest, Nat.le_refl _⟩ :=
            if_pos hident
          rw [hexpect]
          refine .inl (.word hother _) ?_
          exact .bind (reads_assigned (fun s => hK _) t.text _) fun s => .pure
  · have hno : ∀ x, (words ts).head? ≠ some (.identifier x) :=
      fun x hx => hident (check_identifier_iff.mpr ⟨x, hx⟩)
    have hlabel : label ts = ⟨none, ts, Nat.le_refl _⟩ := by
      refine label_eq_none ?_
      rintro t c rest rfl ht
      exact absurd (isOf_none_iff.mpr ht) hident
    rw [phrase_instruction, instruction_eq hlabel]
    refine .inl (.oneOf hno _) ?_
    exact .bind (reads_statement .goto (fun s => hK _) ts) fun s => .pure

theorem reads_instructions {K : List Instruction → Prospect} (hK : ∀ is, (K is).Completable)
    (hend : ∀ is w p, K is w p → w.head? = none) (ts : List Token) :
    Reads (phrase IsInstructions K) K ts (instructions ts) := by
  rw [phrase_instructions, instructions]
  refine .reached (e := .text) (hend []) ?_ (hK []) .pure ?_
  · rintro w p ⟨u, i, rest, rfl, hi, _⟩
    have hne : (u ++ rest).head? ≠ none := by simp [hi.ne_nil]
    exact ⟨hne, hne⟩
  · have hrest : ∀ i, (phrase IsInstructions fun is => K (i :: is)).Completable :=
      fun i => .instructions (hK _)
    refine .bind (reads_instruction hrest ts) fun first => ?_
    have shorter : first.rest.length < ts.length := by
      have := first.taken
      omega
    refine .bind (reads_instructions (fun _ => hK _) (fun _ => hend _) first.rest) fun others => ?_
    exact .pure
termination_by ts.length

theorem reads_program (l : Language) {K : Program → Prospect} (hK : ∀ p, (K p).Completable)
    (hend : ∀ p w q, K p w q → w.head? = none) (ts : List Token) :
    Reads (phrase (IsProgram l) K) K ts (program l ts) := by
  cases l with
  | loop =>
      rw [phrase_loopProgram]
      have hblock := reads_block .loop (e := .text) (fun ss => hK (.loop ss)) True.intro
        (fun _ => hend _) ts
      exact .bind hblock fun ss => .pure
  | whileDo =>
      rw [phrase_whileProgram]
      have hblock := reads_block .whileDo (e := .text) (fun ss => hK (.whileDo ss)) True.intro
        (fun _ => hend _) ts
      exact .bind hblock fun ss => .pure
  | goto =>
      rw [phrase_gotoProgram]
      exact .bind (reads_instructions (fun _ => hK _) (fun _ => hend _) ts) fun is => .pure

end Parser

end CounterPrograms
