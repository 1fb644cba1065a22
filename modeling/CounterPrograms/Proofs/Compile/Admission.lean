import CounterPrograms.Compile.WhileToGoto
import CounterPrograms.Proofs.Program.Block
import CounterPrograms.Proofs.Sequence

/-!
# What compilations carry over

Expressions and conditions are carried over unchanged if they have no foreign part, and proper ones
have none.  The negation of a condition holds exactly when the condition does not
(`WhileToGoto.eval_of_negated`).
-/

namespace CounterPrograms

/-- An index is too long: the one reason for which the programs of a language do not compile. -/
def CompileError.IsNumeral (e : CompileError) : Prop :=
  ∃ n, e = .numeral n

/-! ### Expressions -/

theorem Expr.eq_of_admitted {e e' : Expr} (h : e.admit = .ok e') : e' = e := by
  unfold Expr.admit at h
  split at h
  · exact (Except.ok.inj h).symm
  · cases h

theorem Expr.Proper.foreign?_eq_none {e : Expr} (he : e.Proper) : e.foreign? = none := by
  induction e with
  | num n => rfl
  | var name => rfl
  | binary left op right ihl ihr => rw [Expr.foreign?, ihl he.1, ihr he.2.2, Option.or_none]
  | foreign f => exact he.elim

theorem Expr.Proper.admitted {e : Expr} (he : e.Proper) : e.admit = .ok e := by
  unfold Expr.admit
  rw [he.foreign?_eq_none]

/-! ### Conditions -/

theorem Condition.eq_of_admitted {c c' : Condition} (h : c.admit = .ok c') : c' = c := by
  unfold Condition.admit at h
  obtain ⟨l, hl, h⟩ := Except.bind_eq_ok_iff.mp h
  obtain ⟨r, hr, h⟩ := Except.bind_eq_ok_iff.mp h
  obtain rfl := Except.pure_eq_ok_iff.mp h
  rw [Expr.eq_of_admitted hl, Expr.eq_of_admitted hr]

theorem Condition.Proper.admitted {c : Condition} (hc : c.Proper) : c.admit = .ok c := by
  unfold Condition.admit
  rw [hc.left.admitted, hc.right.admitted]
  rfl

namespace WhileToGoto

theorem exists_of_negated {c c' : Condition} (h : negated c = .ok c') :
    ∃ o, Comparison.ofSymbol? c.op = some o ∧ c' = { c with op := o.negation.symbol } := by
  obtain ⟨d, hd, hneg⟩ := Except.bind_eq_ok_iff.mp h
  rw [Condition.eq_of_admitted hd] at hneg
  obtain ⟨op, hop, hc⟩ := Except.bind_eq_ok_iff.mp hneg
  obtain rfl := Except.pure_eq_ok_iff.mp hc
  unfold negatedSymbol at hop
  split at hop
  · next o ho =>
      obtain rfl := Except.ok.inj hop
      exact ⟨o, ho, rfl⟩
  · cases hop

theorem names_of_negated {c c' : Condition} (h : negated c = .ok c') : c'.names = c.names := by
  obtain ⟨o, _, rfl⟩ := exists_of_negated h
  rfl

/-- The negation holds exactly when the condition does not. -/
theorem eval_of_negated {c c' : Condition} (h : negated c = .ok c') (s : Store) :
    c'.eval s = (c.eval s).map not := by
  obtain ⟨o, ho, rfl⟩ := exists_of_negated h
  rw [Condition.eval, Condition.eval, ho]
  simp only [Comparison.ofSymbol?_symbol]
  cases c.left.eval s with
  | error e => rfl
  | ok a =>
      cases c.right.eval s with
      | error e => rfl
      | ok b => exact congrArg Except.ok (o.holds_negation a b)

theorem negated_of_proper {c : Condition} (hc : c.Proper) :
    ∃ c', negated c = .ok c' ∧ c'.Proper := by
  obtain ⟨o, ho⟩ := hc.op
  refine ⟨{ c with op := o.negation.symbol }, ?_, hc.left, ⟨o.negation, rfl⟩, hc.right⟩
  rw [negated, hc.admitted]
  show c.negate = _
  rw [Condition.negate, negatedSymbol, ho, Comparison.ofSymbol?_symbol]
  rfl

theorem proper_of_negated {c c' : Condition} (hc : c.Proper) (h : negated c = .ok c') :
    c'.Proper := by
  obtain ⟨d, hd, hproper⟩ := negated_of_proper hc
  obtain rfl := Except.ok.inj (h.symm.trans hd)
  exact hproper

end WhileToGoto

end CounterPrograms
