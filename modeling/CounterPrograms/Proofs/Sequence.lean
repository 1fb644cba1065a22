import CounterPrograms.Run.Eval

/-!
# Computations one after the other

A computation made of two has a value iff the first one has a value with which the second one has
that value; a run made of two returns iff the first one returns in a state from which the second one
returns.  What a computation made of others ensures, and what it can raise, follows
from what these do (`Except.Ensures.bind`, `EStateM.OnlyRaises.bind`, `EStateM.Succeeds.bind`).
-/

namespace Except

variable {ε α β : Type}

theorem bind_eq_ok_iff {x : Except ε α} {f : α → Except ε β} {b : β} :
    x >>= f = .ok b ↔ ∃ a, x = .ok a ∧ f a = .ok b := by
  cases x with
  | ok a =>
      constructor
      · exact fun h => ⟨a, rfl, h⟩
      · rintro ⟨_, h, hf⟩
        cases h
        exact hf
  | error e =>
      constructor
      · exact fun h => nomatch h
      · rintro ⟨_, h, _⟩
        cases h

theorem pure_eq_ok_iff {a b : α} : (pure a : Except ε α) = .ok b ↔ a = b :=
  ⟨fun h => Except.ok.inj h, fun h => h ▸ rfl⟩

/-- A computation whose value passes a test has a value. -/
theorem exists_of_any {x : Except ε α} {p : α → Bool} (h : x.toOption.any p = true) :
    ∃ a, x = .ok a ∧ p a = true := by
  cases x with
  | ok a => exact ⟨a, rfl, h⟩
  | error e => cases h

/-- Whatever value the computation has has the property `P`. -/
def Ensures (P : α → Prop) (x : Except ε α) : Prop :=
  ∀ a, x = .ok a → P a

namespace Ensures

theorem trivial (x : Except ε α) : x.Ensures fun _ => True :=
  fun _ _ => True.intro

theorem pure {P : α → Prop} {a : α} (h : P a) : (Pure.pure a : Except ε α).Ensures P := by
  intro b hb
  rw [← pure_eq_ok_iff.mp hb]
  exact h

theorem error {P : α → Prop} (e : ε) : (Except.error e : Except ε α).Ensures P := by
  intro b hb
  cases hb

theorem bind {P : α → Prop} {Q : β → Prop} {x : Except ε α} {f : α → Except ε β}
    (hx : x.Ensures P) (hf : ∀ a, P a → (f a).Ensures Q) : (x >>= f).Ensures Q := by
  intro b hb
  obtain ⟨a, ha, hb⟩ := bind_eq_ok_iff.mp hb
  exact hf a (hx a ha) b hb

end Ensures

/-- Whatever error the computation raises has the property `P`. -/
def OnlyRaises (P : ε → Prop) (x : Except ε α) : Prop :=
  ∀ e, x = .error e → P e

namespace OnlyRaises

variable {P : ε → Prop} {x : Except ε α}

theorem ok (a : α) : (Except.ok a : Except ε α).OnlyRaises P := by
  intro e h
  cases h

theorem error {e : ε} (h : P e) : (Except.error e : Except ε α).OnlyRaises P := by
  intro e' h'
  obtain rfl := Except.error.inj h'
  exact h

theorem bind {f : α → Except ε β} (hx : x.OnlyRaises P) (hf : ∀ a, (f a).OnlyRaises P) :
    (x >>= f).OnlyRaises P := by
  cases x with
  | ok a => exact hf a
  | error e => exact error (hx e rfl)

theorem foldlM {f : β → α → Except ε β} (hf : ∀ b a, (f b a).OnlyRaises P) (b : β)
    (as : List α) : (as.foldlM f b).OnlyRaises P := by
  induction as generalizing b with
  | nil => exact ok b
  | cons a as ih =>
      rw [List.foldlM_cons]
      exact bind (hf b a) ih

theorem mapError {ε' : Type} {f : ε' → ε} {y : Except ε' α} (h : ∀ e, P (f e)) :
    (y.mapError f).OnlyRaises P := by
  cases y with
  | ok a => exact ok a
  | error e => exact error (h e)

end OnlyRaises

end Except

namespace EStateM

variable {ε σ α β : Type}

theorem bind_eq_ok_iff {x : EStateM ε σ α} {f : α → EStateM ε σ β} {b : β} {s u : σ} :
    (x >>= f) s = .ok b u ↔ ∃ a t, x s = .ok a t ∧ f a t = .ok b u := by
  show EStateM.bind x f s = .ok b u ↔ _
  unfold EStateM.bind
  cases x s with
  | ok a t =>
      constructor
      · exact fun h => ⟨a, t, rfl, h⟩
      · rintro ⟨_, _, h, hf⟩
        cases h
        exact hf
  | error e t =>
      constructor
      · exact fun h => nomatch h
      · rintro ⟨_, _, h, _⟩
        cases h

theorem pure_eq_ok_iff {a b : α} {s t : σ} :
    (pure a : EStateM ε σ α) s = .ok b t ↔ a = b ∧ s = t := by
  constructor
  · intro h
    cases h
    exact ⟨rfl, rfl⟩
  · rintro ⟨rfl, rfl⟩
    rfl

/-- Whatever error the computation raises has the property `P`. -/
def OnlyRaises (P : ε → Prop) (x : EStateM ε σ α) : Prop :=
  ∀ s e u, x s = .error e u → P e

namespace OnlyRaises

variable {P : ε → Prop} {x : EStateM ε σ α}

theorem pure (a : α) : OnlyRaises P (Pure.pure a : EStateM ε σ α) := by
  intro s e u h
  cases h

theorem bind {f : α → EStateM ε σ β} (hx : OnlyRaises P x) (hf : ∀ a, OnlyRaises P (f a)) :
    OnlyRaises P (x >>= f) := by
  intro s e u h
  have hb : EStateM.bind x f s = .error e u := h
  unfold EStateM.bind at hb
  cases hs : x s with
  | ok a t =>
      rw [hs] at hb
      exact hf a t e u hb
  | error e' t =>
      rw [hs] at hb
      cases hb
      exact hx s _ _ hs

end OnlyRaises

/-- From a state with the property `I` the computation has a value and leaves a state with it. -/
def Succeeds (I : σ → Prop) (x : EStateM ε σ α) : Prop :=
  ∀ s, I s → ∃ a u, x s = .ok a u ∧ I u

namespace Succeeds

variable {I : σ → Prop} {x : EStateM ε σ α}

theorem pure (a : α) : Succeeds I (Pure.pure a : EStateM ε σ α) :=
  fun s hs => ⟨a, s, rfl, hs⟩

theorem bind {f : α → EStateM ε σ β} (hx : Succeeds I x) (hf : ∀ a, Succeeds I (f a)) :
    Succeeds I (x >>= f) := by
  intro s hs
  obtain ⟨a, t, ha, ht⟩ := hx s hs
  obtain ⟨b, u, hb, hu⟩ := hf a t ht
  exact ⟨b, u, bind_eq_ok_iff.mpr ⟨a, t, ha, hb⟩, hu⟩

end Succeeds

end EStateM

namespace CounterPrograms

namespace Outcome

variable {σ : Type}

theorem andThen_eq_returned_iff {o : Outcome σ} {next : σ → Outcome σ} {u : σ} :
    o.andThen next = .returned u ↔ ∃ t, o = .returned t ∧ next t = .returned u := by
  cases o with
  | returned t =>
      constructor
      · exact fun h => ⟨t, rfl, h⟩
      · rintro ⟨_, h, hn⟩
        cases h
        exact hn
  | raised e t =>
      constructor
      · exact fun h => nomatch h
      · rintro ⟨_, h, _⟩
        cases h

theorem map_eq_returned_iff {τ : Type} {o : Outcome σ} {f : σ → τ} {u : τ} :
    o.map f = .returned u ↔ ∃ s, o = .returned s ∧ f s = u := by
  cases o with
  | returned s => simp [map]
  | raised e s => simp [map]

theorem state_map {τ : Type} (f : σ → τ) (o : Outcome σ) : (o.map f).state = f o.state := by
  cases o <;> rfl

theorem exists_of_error?_eq_none {o : Outcome σ} (h : o.error? = none) : ∃ s, o = .returned s := by
  cases o with
  | returned s => exact ⟨s, rfl⟩
  | raised e s => cases h

theorem exists_of_error?_eq_some {o : Outcome σ} {e : RunError} (h : o.error? = some e) :
    ∃ s, o = .raised e s := by
  cases o with
  | returned s => cases h
  | raised e' s =>
      obtain rfl := Option.some.inj h
      exact ⟨s, rfl⟩

end Outcome

namespace Memory

variable {m m' : Memory}

theorem runAssign_eq_returned_iff {x : String} {e : Expr} :
    m.runAssign x e = .returned m' ↔ ∃ n, e.eval m.store = .ok n ∧ m.assign x n = m' := by
  unfold runAssign
  cases e.eval m.store with
  | ok n => simp
  | error _ => simp

theorem runAssign_of_eval {x : String} {e : Expr} {n : Int} (h : e.eval m.store = .ok n) :
    m.runAssign x e = .returned (m.assign x n) :=
  runAssign_eq_returned_iff.mpr ⟨n, h, rfl⟩

theorem test_of_eval {c : Condition} {b : Bool} (h : c.eval m.store = .ok b)
    (next : Bool → Outcome Memory) : m.test c next = next b := by
  rw [test, h]

theorem test_eq_returned_iff {c : Condition} {next : Bool → Outcome Memory} :
    m.test c next = .returned m' ↔ ∃ b, c.eval m.store = .ok b ∧ next b = .returned m' := by
  unfold test
  cases c.eval m.store with
  | ok b => simp
  | error _ => simp

theorem tick_of_lt (h : m.steps < stepLimit) : m.tick = .returned m.count :=
  if_pos h

theorem tick_of_not_lt (h : ¬ m.steps < stepLimit) : m.tick = .raised .stepLimit m.count :=
  if_neg h

theorem tick_eq_returned_iff : m.tick = .returned m' ↔ m.steps < stepLimit ∧ m.count = m' := by
  by_cases h : m.steps < stepLimit
  · simp [tick_of_lt h, h]
  · simp [tick_of_not_lt h, h]

end Memory

end CounterPrograms
