import CounterPrograms.Proofs.Program.Grammar

/-!
# Prospects

A prospect says which lists of words may still come, and which program is read if they do.  The
prospect `phrase D K` begins with a phrase of the grammar, behind which comes what `K` says of its
tree.  Every rule of the grammar gives an equation that takes such a prospect apart from left to
right, word by word (`phrase_operand` to `phrase_gotoProgram`).

A prospect is `Completable` if it holds a list of readable words.  As every phrase can be written
with readable words, all prospects in this library are, if what comes behind them is.
-/

namespace CounterPrograms

/-- Lists of words that may come, with the programs that are read then. -/
abbrev Prospect := List Word → Program → Prop

namespace Prospect

open Grammar

variable {α β : Type}

/-- The word `a`, and then what `L` says. -/
def word (a : Word) (L : Prospect) : Prospect :=
  fun w p => ∃ rest, w = a :: rest ∧ L rest p

/-- One of the words `A b`, and then what `K b` says. -/
def oneOf (A : β → Word) (K : β → Prospect) : Prospect :=
  fun w p => ∃ b rest, w = A b :: rest ∧ K b rest p

/-- A phrase, and then what `K` says of its tree. -/
def phrase (D : List Word → α → Prop) (K : α → Prospect) : Prospect :=
  fun w p => ∃ u v rest, w = u ++ rest ∧ D u v ∧ K v rest p

/-- What either of two prospects says. -/
def either (L M : Prospect) : Prospect :=
  fun w p => L w p ∨ M w p

theorem ext {L M : Prospect} (h : ∀ w p, L w p → M w p) (h' : ∀ w p, M w p → L w p) : L = M := by
  funext w p
  exact propext ⟨h w p, h' w p⟩

theorem word_eq_oneOf (a : Word) (L : Prospect) :
    word a L = oneOf (fun _ : Unit => a) fun _ => L := by
  apply Prospect.ext
  · rintro w p ⟨rest, rfl, h⟩
    exact ⟨(), rest, rfl, h⟩
  · rintro w p ⟨_, rest, rfl, h⟩
    exact ⟨rest, rfl, h⟩

/-! ### The rules of the grammar, from left to right -/

theorem phrase_operand (K : Expr → Prospect) :
    phrase IsOperand K =
      either (oneOf Word.number fun s => K (.num (Numeral.value s.toList)))
        (oneOf Word.identifier fun x => K (.var x)) := by
  apply Prospect.ext
  · rintro w p ⟨u, e, rest, rfl, hD, hK⟩
    cases hD with
    | number s => exact .inl ⟨s, rest, rfl, hK⟩
    | var x => exact .inr ⟨x, rest, rfl, hK⟩
  · rintro w p (⟨s, rest, rfl, hK⟩ | ⟨x, rest, rfl, hK⟩)
    · exact ⟨_, _, rest, rfl, .number s, hK⟩
    · exact ⟨_, _, rest, rfl, .var x, hK⟩

theorem phrase_expression (K : Expr → Prospect) :
    phrase IsExpression K =
      phrase IsOperand fun l => either (K l)
        (oneOf Word.operator fun o => phrase IsOperand fun r => K (.binary l o.symbol r)) := by
  apply Prospect.ext
  · rintro w p ⟨u, e, rest, rfl, hD, hK⟩
    cases hD with
    | operand h => exact ⟨_, _, _, rfl, h, .inl hK⟩
    | binary o hl hr =>
        exact ⟨_, _, _, List.append_assoc _ _ _, hl, .inr ⟨o, _, rfl, _, _, _, rfl, hr, hK⟩⟩
  · rintro w p ⟨u, l, rest, rfl, hl, hK | ⟨o, _, rfl, v, r, rest, rfl, hr, hK⟩⟩
    · exact ⟨_, _, _, rfl, .operand hl, hK⟩
    · exact ⟨_, _, _, by simp, .binary o hl hr, hK⟩

theorem phrase_condition (K : Condition → Prospect) :
    phrase IsCondition K =
      phrase IsExpression fun l => oneOf Word.comparison fun o => phrase IsExpression fun r =>
        K ⟨l, o.symbol, r⟩ := by
  apply Prospect.ext
  · rintro w p ⟨u, c, rest, rfl, hD, hK⟩
    cases hD with
    | comparison o hl hr =>
        exact ⟨_, _, _, List.append_assoc _ _ _, hl, o, _, rfl, _, _, _, rfl, hr, hK⟩
  · rintro w p ⟨u, l, _, rfl, hl, o, _, rfl, v, r, rest, rfl, hr, hK⟩
    exact ⟨_, _, _, by simp, .comparison o hl hr, hK⟩

/-- The part of an assignment behind its first word. -/
def assigned (K : Stmt → Prospect) (x : String) : Prospect :=
  word .assign (phrase IsExpression fun e => word .semicolon (K (.assign x e)))

theorem phrase_assignment (K : Stmt → Prospect) :
    phrase IsAssignment K = oneOf Word.identifier (assigned K) := by
  apply Prospect.ext
  · rintro w p ⟨u, s, rest, rfl, hD, hK⟩
    cases hD with
    | assign x he =>
        exact ⟨x, _, rfl, _, rfl, _, _, _, List.append_assoc _ _ _, he, _, rfl, hK⟩
  · rintro w p ⟨x, _, rfl, _, rfl, v, e, _, rfl, he, rest, rfl, hK⟩
    exact ⟨_, _, _, by simp, .assign x he, hK⟩

theorem phrase_loopStatement (K : Stmt → Prospect) :
    phrase (IsStatement .loop) K =
      either
        (word (.keyword "LOOP") (oneOf Word.identifier fun x => word (.keyword "DO")
          (phrase (IsBlock .loop) fun body => word (.keyword "END") (K (.loop x body)))))
        (phrase IsAssignment K) := by
  apply Prospect.ext
  · rintro w p ⟨u, s, rest, rfl, hD, hK⟩
    cases hD with
    | assignment h => exact .inr ⟨_, _, _, rfl, h, hK⟩
    | loop x hb =>
        exact .inl ⟨_, rfl, x, _, rfl, _, rfl, _, _, _, List.append_assoc _ _ _, hb, _, rfl, hK⟩
  · rintro w p (⟨_, rfl, x, _, rfl, _, rfl, u, body, _, rfl, hb, rest, rfl, hK⟩ |
      ⟨u, s, rest, rfl, h, hK⟩)
    · exact ⟨_, _, _, by simp, .loop x hb, hK⟩
    · exact ⟨_, _, _, rfl, .assignment h, hK⟩

theorem phrase_whileStatement (K : Stmt → Prospect) :
    phrase (IsStatement .whileDo) K =
      either
        (word (.keyword "WHILE") (phrase IsCondition fun c => word (.keyword "DO")
          (phrase (IsBlock .whileDo) fun body => word (.keyword "END") (K (.whileDo c body)))))
        (either
          (word (.keyword "IF") (phrase IsCondition fun c => word (.keyword "THEN")
            (phrase (IsBlock .whileDo) fun t => either
              (word (.keyword "ELSE") (phrase (IsBlock .whileDo) fun e =>
                word (.keyword "END") (K (.ifThen c t (some e)))))
              (word (.keyword "END") (K (.ifThen c t none))))))
          (phrase IsAssignment K)) := by
  apply Prospect.ext
  · rintro w p ⟨u, s, rest, rfl, hD, hK⟩
    cases hD with
    | assignment h => exact .inr (.inr ⟨_, _, _, rfl, h, hK⟩)
    | whileDo hc hb =>
        exact .inl ⟨_, rfl, _, _, _, by simp, hc, _, rfl, _, _, _, rfl, hb, _, rfl, hK⟩
    | ifThen hc ht =>
        exact .inr (.inl ⟨_, rfl, _, _, _, by simp, hc, _, rfl, _, _, _, rfl, ht,
          .inr ⟨_, rfl, hK⟩⟩)
    | ifElse hc ht he =>
        exact .inr (.inl ⟨_, rfl, _, _, _, by simp, hc, _, rfl, _, _, _, rfl, ht,
          .inl ⟨_, rfl, _, _, _, rfl, he, _, rfl, hK⟩⟩)
  · rintro w p (⟨_, rfl, u, c, _, rfl, hc, _, rfl, v, b, _, rfl, hb, _, rfl, hK⟩ |
      ⟨_, rfl, u, c, _, rfl, hc, _, rfl, v, t, _, rfl, ht,
        ⟨_, rfl, v', e, _, rfl, he, _, rfl, hK⟩ | ⟨_, rfl, hK⟩⟩ | ⟨u, s, rest, rfl, h, hK⟩)
    · exact ⟨_, _, _, by simp, .whileDo hc hb, hK⟩
    · exact ⟨_, _, _, by simp, .ifElse hc ht he, hK⟩
    · exact ⟨_, _, _, by simp, .ifThen hc ht, hK⟩
    · exact ⟨_, _, _, rfl, .assignment h, hK⟩

/-- The label of a jump and the semicolon behind it. -/
def jump (K : String → Prospect) : Prospect :=
  oneOf Word.identifier fun x => word .semicolon (K x)

theorem phrase_gotoStatement (K : Stmt → Prospect) :
    phrase (IsStatement .goto) K =
      either (phrase IsAssignment K) (either
        (word (.keyword "GOTO") (jump fun x => K (.goto x))) (either
          (word (.keyword "IF") (phrase IsCondition fun c => either
            (word (.keyword "THEN") (word (.keyword "GOTO") (jump fun x => K (.ifGoto c x))))
            (word (.keyword "GOTO") (jump fun x => K (.ifGoto c x)))))
          (word (.keyword "HALT") (word .semicolon (K .halt))))) := by
  apply Prospect.ext
  · rintro w p ⟨u, s, rest, rfl, hD, hK⟩
    cases hD with
    | assignment h => exact .inl ⟨_, _, _, rfl, h, hK⟩
    | goto x => exact .inr (.inl ⟨_, rfl, x, _, rfl, _, rfl, hK⟩)
    | ifGoto x hc =>
        exact .inr (.inr (.inl ⟨_, rfl, _, _, _, by simp, hc,
          .inr ⟨_, rfl, x, _, rfl, _, rfl, hK⟩⟩))
    | ifThenGoto x hc =>
        exact .inr (.inr (.inl ⟨_, rfl, _, _, _, by simp, hc,
          .inl ⟨_, rfl, _, rfl, x, _, rfl, _, rfl, hK⟩⟩))
    | halt => exact .inr (.inr (.inr ⟨_, rfl, _, rfl, hK⟩))
  · rintro w p (⟨u, s, rest, rfl, h, hK⟩ | ⟨_, rfl, x, _, rfl, _, rfl, hK⟩ |
      ⟨_, rfl, u, c, _, rfl, hc, ⟨_, rfl, _, rfl, x, _, rfl, _, rfl, hK⟩ |
        ⟨_, rfl, x, _, rfl, _, rfl, hK⟩⟩ | ⟨_, rfl, _, rfl, hK⟩)
    · exact ⟨_, _, _, rfl, .assignment h, hK⟩
    · exact ⟨_, _, _, rfl, .goto x, hK⟩
    · exact ⟨_, _, _, by simp, .ifThenGoto x hc, hK⟩
    · exact ⟨_, _, _, by simp, .ifGoto x hc, hK⟩
    · exact ⟨_, _, _, rfl, .halt, hK⟩

theorem phrase_block (l : Language) (K : List Stmt → Prospect) :
    phrase (IsBlock l) K =
      either (K []) (phrase (IsStatement l) fun s => phrase (IsBlock l) fun ss =>
        K (s :: ss)) := by
  apply Prospect.ext
  · rintro w p ⟨u, ss, rest, rfl, hD, hK⟩
    cases hD with
    | nil => exact .inl hK
    | cons hs hss => exact .inr ⟨_, _, _, List.append_assoc _ _ _, hs, _, _, _, rfl, hss, hK⟩
  · rintro w p (hK | ⟨u, s, _, rfl, hs, v, ss, rest, rfl, hss, hK⟩)
    · exact ⟨[], [], w, rfl, .nil l, hK⟩
    · exact ⟨_, _, _, by simp, .cons hs hss, hK⟩

theorem phrase_instruction (K : Instruction → Prospect) :
    phrase IsInstruction K =
      either (phrase (IsStatement .goto) fun s => K ⟨s, none⟩)
        (oneOf Word.identifier fun x => word .colon (phrase (IsStatement .goto) fun s =>
          K ⟨s, some x⟩)) := by
  apply Prospect.ext
  · rintro w p ⟨u, i, rest, rfl, hD, hK⟩
    cases hD with
    | unlabelled hs => exact .inl ⟨_, _, _, rfl, hs, hK⟩
    | labelled x hs => exact .inr ⟨x, _, rfl, _, rfl, _, _, _, rfl, hs, hK⟩
  · rintro w p (⟨u, s, rest, rfl, hs, hK⟩ | ⟨x, _, rfl, _, rfl, u, s, rest, rfl, hs, hK⟩)
    · exact ⟨_, _, _, rfl, .unlabelled hs, hK⟩
    · exact ⟨_, _, _, rfl, .labelled x hs, hK⟩

theorem phrase_instructions (K : List Instruction → Prospect) :
    phrase IsInstructions K =
      either (K []) (phrase IsInstruction fun i => phrase IsInstructions fun is =>
        K (i :: is)) := by
  apply Prospect.ext
  · rintro w p ⟨u, is, rest, rfl, hD, hK⟩
    cases hD with
    | nil => exact .inl hK
    | cons hi his => exact .inr ⟨_, _, _, List.append_assoc _ _ _, hi, _, _, _, rfl, his, hK⟩
  · rintro w p (hK | ⟨u, i, _, rfl, hi, v, is, rest, rfl, his, hK⟩)
    · exact ⟨[], [], w, rfl, .nil, hK⟩
    · exact ⟨_, _, _, by simp, .cons hi his, hK⟩

theorem phrase_loopProgram (K : Program → Prospect) :
    phrase (IsProgram .loop) K = phrase (IsBlock .loop) fun ss => K (.loop ss) := by
  apply Prospect.ext
  · rintro w p ⟨u, p, rest, rfl, hD, hK⟩
    cases hD with
    | loop hss => exact ⟨_, _, _, rfl, hss, hK⟩
  · rintro w p ⟨u, ss, rest, rfl, hss, hK⟩
    exact ⟨_, _, _, rfl, .loop hss, hK⟩

theorem phrase_whileProgram (K : Program → Prospect) :
    phrase (IsProgram .whileDo) K = phrase (IsBlock .whileDo) fun ss => K (.whileDo ss) := by
  apply Prospect.ext
  · rintro w p ⟨u, p, rest, rfl, hD, hK⟩
    cases hD with
    | whileDo hss => exact ⟨_, _, _, rfl, hss, hK⟩
  · rintro w p ⟨u, ss, rest, rfl, hss, hK⟩
    exact ⟨_, _, _, rfl, .whileDo hss, hK⟩

theorem phrase_gotoProgram (K : Program → Prospect) :
    phrase (IsProgram .goto) K = phrase IsInstructions fun is => K (.goto is) := by
  apply Prospect.ext
  · rintro w p ⟨u, p, rest, rfl, hD, hK⟩
    cases hD with
    | goto his => exact ⟨_, _, _, rfl, his, hK⟩
  · rintro w p ⟨u, is, rest, rfl, his, hK⟩
    exact ⟨_, _, _, rfl, .goto his, hK⟩

/-! ### Completing -/

/-- Whether readable words may come that complete what has been read. -/
def Completable (L : Prospect) : Prop :=
  ∃ w p, (∀ a ∈ w, a.IsReadable) ∧ L w p

namespace Completable

variable {L M : Prospect}

theorem word {a : Word} (ha : a.IsReadable) (h : Completable L) : Completable (word a L) := by
  obtain ⟨w, p, hw, hL⟩ := h
  exact ⟨a :: w, p, List.forall_mem_cons.mpr ⟨ha, hw⟩, w, rfl, hL⟩

theorem oneOf {A : β → Word} {K : β → Prospect} (b : β) (ha : (A b).IsReadable)
    (h : Completable (K b)) : Completable (oneOf A K) := by
  obtain ⟨w, p, hw, hK⟩ := h
  exact ⟨A b :: w, p, List.forall_mem_cons.mpr ⟨ha, hw⟩, b, w, rfl, hK⟩

theorem inl (h : Completable L) : Completable (either L M) := by
  obtain ⟨w, p, hw, hL⟩ := h
  exact ⟨w, p, hw, .inl hL⟩

theorem inr (h : Completable M) : Completable (either L M) := by
  obtain ⟨w, p, hw, hM⟩ := h
  exact ⟨w, p, hw, .inr hM⟩

theorem keyword {s : String} (hs : s ∈ Token.keywords) (h : Completable L) :
    Completable (Prospect.word (.keyword s) L) :=
  word (.keyword hs) h

theorem identifier {K : String → Prospect} (h : ∀ x, Completable (K x)) :
    Completable (Prospect.oneOf Word.identifier K) :=
  oneOf "a" (.identifier ⟨⟨'a', [], rfl, by decide, nofun⟩, by decide⟩) (h "a")

theorem jump {K : String → Prospect} (h : ∀ x, Completable (K x)) : Completable (jump K) :=
  identifier fun x => word .semicolon (h x)

theorem operand {K : Expr → Prospect} (h : ∀ e, Completable (K e)) :
    Completable (phrase IsOperand K) := by
  rw [phrase_operand]
  exact inr (identifier fun x => h (.var x))

theorem expression {K : Expr → Prospect} (h : ∀ e, Completable (K e)) :
    Completable (phrase IsExpression K) := by
  rw [phrase_expression]
  exact operand fun l => inl (h l)

theorem condition {K : Condition → Prospect} (h : ∀ c, Completable (K c)) :
    Completable (phrase IsCondition K) := by
  rw [phrase_condition]
  exact expression fun l => oneOf .eq (.comparison .eq) (expression fun r => h _)

theorem assigned {K : Stmt → Prospect} (h : ∀ s, Completable (K s)) (x : String) :
    Completable (assigned K x) :=
  word .assign (expression fun _ => word .semicolon (h _))

theorem assignment {K : Stmt → Prospect} (h : ∀ s, Completable (K s)) :
    Completable (phrase IsAssignment K) := by
  rw [phrase_assignment]
  exact identifier (assigned h)

theorem block {l : Language} {K : List Stmt → Prospect} (h : Completable (K [])) :
    Completable (phrase (IsBlock l) K) := by
  rw [phrase_block]
  exact inl h

theorem instructions {K : List Instruction → Prospect} (h : Completable (K [])) :
    Completable (phrase IsInstructions K) := by
  rw [phrase_instructions]
  exact inl h

end Completable

/-! ### What does not come first -/

/-- No list of words in the prospect begins with a word that has the property `P`. -/
def Avoids (L : Prospect) (P : Word → Prop) : Prop :=
  ∀ w p, L w p → ∀ a, w.head? = some a → ¬ P a

namespace Avoids

variable {P : Word → Prop} {L M : Prospect}

theorem word {a : Word} (ha : ¬ P a) (L : Prospect) : Avoids (word a L) P := by
  rintro w p ⟨rest, rfl, _⟩ b hb
  exact Option.some.inj hb ▸ ha

theorem oneOf {A : β → Word} (hA : ∀ b, ¬ P (A b)) (K : β → Prospect) :
    Avoids (oneOf A K) P := by
  rintro w p ⟨b, rest, rfl, _⟩ c hc
  exact Option.some.inj hc ▸ hA b

theorem either (hL : Avoids L P) (hM : Avoids M P) : Avoids (either L M) P := by
  rintro w p (h | h)
  · exact hL w p h
  · exact hM w p h

theorem assignment (hP : ∀ x, ¬ P (.identifier x)) (K : Stmt → Prospect) :
    Avoids (phrase IsAssignment K) P := by
  rw [phrase_assignment]
  exact oneOf hP _

end Avoids

end Prospect

end CounterPrograms
