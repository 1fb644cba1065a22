import CounterPrograms.Proofs.Run.Goto

/-!
# Instructions in the middle of a program

`Machine.Located code labels p is` says that the instructions `is` stand in `code` from position `p`
on and that their labels lead to them.  Only labels that are carried matter, so a list keeps its
place when a label is taken from it (`Located.unlabelled`), and a program without repeated labels
stands in itself (`located_self`).

What an instruction does is then known from both sides: a run can be continued by it
(`Steps.assign`, `Steps.goto`, `Steps.ifGoto`), and a halting run that meets it goes on from there
(`Halts.of_assign`, `Halts.of_goto`, `Halts.of_ifGoto`).
-/

namespace CounterPrograms

namespace Machine

/-- The statement of `i` is the one at position `p`, and a label that `i` carries leads there. -/
structure Stands (code : List Instruction) (labels : List (String × Nat)) (p : Nat)
    (i : Instruction) : Prop where
  statement : ∃ k, code[p]? = some k ∧ k.statement = i.statement
  label : ∀ l, i.label = some l → labels.lookup l = some p

/-- The instructions `is` stand from position `p` on. -/
def Located (code : List Instruction) (labels : List (String × Nat)) (p : Nat)
    (is : List Instruction) : Prop :=
  ∀ j i, is[j]? = some i → Stands code labels (p + j) i

variable {code : List Instruction} {labels : List (String × Nat)} {p : Nat}

namespace Located

variable {i : Instruction} {is js : List Instruction}

theorem head (h : Located code labels p (i :: is)) : Stands code labels p i :=
  h 0 i rfl

theorem tail (h : Located code labels p (i :: is)) : Located code labels (p + 1) is := by
  intro j k hj
  rw [Nat.add_assoc, Nat.add_comm 1 j]
  exact h (j + 1) k hj

theorem append_left (h : Located code labels p (is ++ js)) : Located code labels p is := by
  intro j k hj
  have hlt : j < is.length := (List.getElem?_eq_some_iff.mp hj).1
  exact h j k (by rw [List.getElem?_append_left hlt, hj])

theorem append_right (h : Located code labels p (is ++ js)) :
    Located code labels (p + is.length) js := by
  intro j k hj
  rw [Nat.add_assoc]
  apply h (is.length + j) k
  rw [List.getElem?_append_right (Nat.le_add_right _ _), Nat.add_sub_cancel_left, hj]

theorem unlabelled {st : Stmt} {l : String} (h : Located code labels p (⟨st, some l⟩ :: is)) :
    Located code labels p (⟨st, none⟩ :: is) := by
  intro j k hj
  cases j with
  | zero =>
      obtain rfl := Option.some.inj hj
      exact ⟨h.head.statement, fun _ hl => nomatch hl⟩
  | succ j => exact h (j + 1) k hj

end Located

theorem located_self (h : (Labels.names code).Nodup) :
    Located code (Labels.carried 0 code) 0 code := by
  intro j i hj
  rw [Nat.zero_add]
  refine ⟨⟨i, hj, rfl⟩, fun l hl => ?_⟩
  rw [Labels.lookup_carried_of_nodup h hj hl, Nat.zero_add]

/-! ### Going on by an instruction -/

section instructions

variable {x l : String} {e : Expr} {c : Condition} {label : Option String} {m : Memory}
  {path : List Nat} {t : Machine}

theorem Steps.of_stands {i : Instruction} {s : Machine} (hi : Stands code labels p i)
    (he : (⟨m.count, labels, p⟩ : Machine).execute i.statement = .going s) :
    Steps code [p] ⟨m, labels, p⟩ s := by
  obtain ⟨⟨k, hk, hst⟩, _⟩ := hi
  refine Steps.single (s := ⟨m, labels, p⟩) hk ?_
  rw [hst]
  exact he

theorem Steps.assign {n : Int} (hi : Stands code labels p ⟨.assign x e, label⟩)
    (he : e.eval m.store = .ok n) :
    Steps code [p] ⟨m, labels, p⟩ ⟨m.count.assign x n, labels, p + 1⟩ :=
  .of_stands hi (execute_assign he)

theorem Steps.goto {target : Nat} (hi : Stands code labels p ⟨.goto l, label⟩)
    (hl : labels.lookup l = some target) :
    Steps code [p] ⟨m, labels, p⟩ ⟨m.count, labels, target⟩ :=
  .of_stands hi (execute_goto hl)

theorem Steps.ifGoto {b : Bool} {target : Nat} (hi : Stands code labels p ⟨.ifGoto c l, label⟩)
    (hc : c.eval m.store = .ok b) (hl : labels.lookup l = some target) :
    Steps code [p] ⟨m, labels, p⟩ ⟨m.count, labels, if b then target else p + 1⟩ :=
  .of_stands hi (execute_ifGoto hc hl)

theorem Halts.halt_of_stands (hi : Stands code labels p ⟨.halt, label⟩) :
    Halts code [p] ⟨m, labels, p⟩ ⟨m.count, labels, p⟩ := by
  obtain ⟨⟨k, hk, hst⟩, _⟩ := hi
  refine Halts.halt (s := ⟨m, labels, p⟩) hk ?_
  rw [hst]
  rfl

/-! ### Halting runs that meet an instruction -/

/-- A halting run that meets an instruction other than `HALT` executes it and goes on. -/
theorem Halts.of_stands {i : Instruction} (h : Halts code path ⟨m, labels, p⟩ t)
    (hi : Stands code labels p i) (hne : i.statement ≠ .halt) :
    ∃ s rest, path = p :: rest ∧
      (⟨m.count, labels, p⟩ : Machine).execute i.statement = .going s ∧ Halts code rest s t := by
  obtain ⟨⟨k, hk, hst⟩, _⟩ := hi
  cases h with
  | behind hn =>
      rw [hk] at hn
      cases hn
  | halt hk' he =>
      obtain rfl := Option.some.inj (hk.symm.trans hk')
      rw [hst] at he
      exact absurd (execute_eq_halted he).1 hne
  | step hk' he hr =>
      obtain rfl := Option.some.inj (hk.symm.trans hk')
      rw [hst] at he
      exact ⟨_, _, rfl, he, hr⟩

theorem Halts.of_halt (h : Halts code path ⟨m, labels, p⟩ t)
    (hi : Stands code labels p ⟨.halt, label⟩) : path = [p] ∧ t = ⟨m.count, labels, p⟩ := by
  obtain ⟨⟨k, hk, hst⟩, _⟩ := hi
  cases h with
  | behind hn =>
      rw [hk] at hn
      cases hn
  | halt hk' he =>
      obtain rfl := Option.some.inj (hk.symm.trans hk')
      exact ⟨rfl, (execute_eq_halted he).2⟩
  | step hk' he _ =>
      obtain rfl := Option.some.inj (hk.symm.trans hk')
      rw [hst] at he
      cases he

theorem Halts.of_assign (h : Halts code path ⟨m, labels, p⟩ t)
    (hi : Stands code labels p ⟨.assign x e, label⟩) :
    ∃ n rest, e.eval m.store = .ok n ∧ path = p :: rest ∧
      Halts code rest ⟨m.count.assign x n, labels, p + 1⟩ t := by
  obtain ⟨s, rest, hpath, he, hr⟩ := h.of_stands hi Stmt.noConfusion
  rcases execute_eq_going he with ⟨_, _, n, hst, hn, rfl⟩ | ⟨_, _, hst, _⟩ | ⟨_, _, _, hst, _⟩ |
    ⟨_, _, hst, _⟩
  · obtain ⟨rfl, rfl⟩ := Stmt.assign.inj hst
    exact ⟨n, rest, hn, hpath, hr⟩
  all_goals cases hst

theorem Halts.of_goto (h : Halts code path ⟨m, labels, p⟩ t)
    (hi : Stands code labels p ⟨.goto l, label⟩) :
    ∃ target rest, labels.lookup l = some target ∧ path = p :: rest ∧
      Halts code rest ⟨m.count, labels, target⟩ t := by
  obtain ⟨s, rest, hpath, he, hr⟩ := h.of_stands hi Stmt.noConfusion
  rcases execute_eq_going he with ⟨_, _, _, hst, _⟩ | ⟨_, target, hst, hl, rfl⟩ |
    ⟨_, _, _, hst, _⟩ | ⟨_, _, hst, _⟩
  · cases hst
  · obtain rfl := Stmt.goto.inj hst
    exact ⟨target, rest, hl, hpath, hr⟩
  all_goals cases hst

theorem Halts.of_ifGoto (h : Halts code path ⟨m, labels, p⟩ t)
    (hi : Stands code labels p ⟨.ifGoto c l, label⟩) :
    (∃ target rest, c.eval m.store = .ok true ∧ labels.lookup l = some target ∧ path = p :: rest ∧
      Halts code rest ⟨m.count, labels, target⟩ t) ∨
    (∃ rest, c.eval m.store = .ok false ∧ path = p :: rest ∧
      Halts code rest ⟨m.count, labels, p + 1⟩ t) := by
  obtain ⟨s, rest, hpath, he, hr⟩ := h.of_stands hi Stmt.noConfusion
  rcases execute_eq_going he with ⟨_, _, _, hst, _⟩ | ⟨_, _, hst, _⟩ |
    ⟨_, _, target, hst, hc, hl, rfl⟩ | ⟨_, _, hst, hc, rfl⟩
  · cases hst
  · cases hst
  · obtain ⟨rfl, rfl⟩ := Stmt.ifGoto.inj hst
    exact .inl ⟨target, rest, hc, hl, hpath, hr⟩
  · obtain ⟨rfl, rfl⟩ := Stmt.ifGoto.inj hst
    exact .inr ⟨rest, hc, hpath, hr⟩

end instructions

end Machine

end CounterPrograms
