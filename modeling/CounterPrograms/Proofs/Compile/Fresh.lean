import CounterPrograms.Compile.Fresh
import CounterPrograms.Proofs.Numeral
import CounterPrograms.Proofs.Sequence

/-!
# Fresh names are fresh

The numeral of an index is read back as that index, so different indices give different variables
and different labels (`Fresh.variableName_injective`, `Fresh.labelName_injective`), and a variable
whose index is not below `nextVariable` is none of the names that `Fresh.above` has seen
(`Fresh.variableName_not_mem_of_above`).
-/

namespace CounterPrograms

/-! ### Indexed names -/

namespace Fresh

/-- The variable with the given index. -/
def variableName (n : Nat) : String :=
  "x" ++ Numeral.text n

theorem variableName_injective {m n : Nat} (h : variableName m = variableName n) : m = n :=
  Numeral.append_text_injective h

theorem labelName_injective {m n : Nat} (h : labelName m = labelName n) : m = n :=
  Numeral.append_text_injective h

theorem indexDigits?_variableName (n : Nat) :
    Names.indexDigits? (variableName n) = some (Numeral.digits n) := by
  have hl : (variableName n).toList = 'x' :: Numeral.digits n := by
    rw [variableName, String.toList_append, Numeral.toList_text]
    rfl
  have hd := Numeral.plainDigits?_digits n
  unfold Names.indexDigits?
  rw [hl]
  cases h : Numeral.digits n with
  | nil => exact absurd h Nat.toDigits_ne_nil
  | cons d ds =>
      rw [h] at hd
      exact hd

end Fresh

/-! ### Names in use -/

namespace Names

theorem le_highestIndexFrom {h r : Option Nat} {names : List String}
    (hr : highestIndexFrom h names = .ok r) :
    (∀ m, h = some m → ∃ k, r = some k ∧ m ≤ k) ∧
      ∀ x ∈ names, ∀ ds, indexDigits? x = some ds → ∃ k, r = some k ∧ Numeral.value ds ≤ k := by
  induction names generalizing h with
  | nil =>
      rw [highestIndexFrom, Except.ok.injEq] at hr
      subst hr
      exact ⟨fun m hm => ⟨m, hm, Nat.le_refl m⟩, fun x hx => absurd hx List.not_mem_nil⟩
  | cons name rest ih =>
      rw [highestIndexFrom] at hr
      cases hd : indexDigits? name with
      | none =>
          rw [hd] at hr
          obtain ⟨hh, hrest⟩ := ih hr
          refine ⟨hh, ?_⟩
          intro x hx ds hds
          rcases List.mem_cons.mp hx with rfl | hx
          · rw [hd] at hds
            cases hds
          · exact hrest x hx ds hds
      | some digits =>
          rw [hd] at hr
          obtain ⟨index, hi, hr⟩ := Except.bind_eq_ok_iff.mp hr
          have hv : Numeral.value digits = index := Numeral.value_of_read hi
          obtain ⟨hh, hrest⟩ := ih hr
          obtain ⟨k, hk, hle⟩ := hh _ rfl
          refine ⟨?_, ?_⟩
          · intro m hm
            subst hm
            refine ⟨k, hk, ?_⟩
            simp only [Option.elim_some] at hle
            omega
          · intro x hx ds hds
            rcases List.mem_cons.mp hx with rfl | hx
            · rw [hd] at hds
              obtain rfl := Option.some.inj hds
              refine ⟨k, hk, ?_⟩
              cases h <;> simp only [Option.elim_some, Option.elim_none] at hle <;> omega
            · exact hrest x hx ds hds

/-- The indices of the given names are short enough to be read, and the index after each of them can
be written. -/
def Indexable (names : List String) : Prop :=
  ∀ x ∈ names, ∀ ds ∈ indexDigits? x,
    ds.length ≤ Numeral.limit ∧ Numeral.value ds + 1 < Numeral.bound

instance : DecidablePred Indexable := fun names =>
  inferInstanceAs (Decidable (∀ x ∈ names, ∀ ds ∈ indexDigits? x,
    ds.length ≤ Numeral.limit ∧ Numeral.value ds + 1 < Numeral.bound))

/-- The greatest index of indexable names is found, and the index after it can be written. -/
theorem exists_highestIndexFrom {h : Option Nat} {names : List String}
    (hh : ∀ m ∈ h, m + 1 < Numeral.bound) (hnames : Indexable names) :
    ∃ r, highestIndexFrom h names = .ok r ∧ ∀ m ∈ r, m + 1 < Numeral.bound := by
  induction names generalizing h with
  | nil => exact ⟨h, rfl, hh⟩
  | cons name rest ih =>
      have hrest : Indexable rest := fun x hx => hnames x (List.mem_cons_of_mem name hx)
      rw [highestIndexFrom]
      cases hd : indexDigits? name with
      | none => exact ih hh hrest
      | some digits =>
          obtain ⟨hlength, hvalue⟩ := hnames name List.mem_cons_self digits hd
          have hread : Numeral.read digits = .ok (Numeral.value digits) := if_pos hlength
          have hmax : ∀ m ∈ some (h.elim (Numeral.value digits) (max (Numeral.value digits))),
              m + 1 < Numeral.bound := by
            intro m hm
            obtain rfl := Option.some.inj hm
            cases h with
            | none => exact hvalue
            | some k =>
                rw [Option.elim_some, ← Nat.add_max_add_right]
                exact Nat.max_lt.mpr ⟨hvalue, hh k rfl⟩
          obtain ⟨r, hr, hbound⟩ := ih hmax hrest
          refine ⟨r, ?_, hbound⟩
          show Numeral.read digits >>= _ = _
          rw [hread]
          exact hr

end Names

namespace Fresh

/-- Names that are indexable leave new variables to be drawn. -/
theorem above_of_indexable {names : List String} (h : Names.Indexable names) :
    ∃ f, above names = .ok f ∧ f.nextVariable < Numeral.bound := by
  obtain ⟨r, hr, hbound⟩ := Names.exists_highestIndexFrom (h := none) nofun h
  refine ⟨⟨r.elim 0 (· + 1), 0⟩, ?_, ?_⟩
  · show Names.highestIndex names >>= _ = _
    rw [Names.highestIndex, hr]
    rfl
  · cases r with
    | none => exact Numeral.bound_pos
    | some m => exact hbound m rfl

/-- No variable from the next new one on is among the names that were looked at. -/
theorem variableName_not_mem_of_above {names : List String} {f : Fresh}
    (hf : above names = .ok f) {n : Nat} (hn : f.nextVariable ≤ n) : variableName n ∉ names := by
  intro hmem
  obtain ⟨highest, hh, hf⟩ := Except.bind_eq_ok_iff.mp hf
  obtain rfl := Except.pure_eq_ok_iff.mp hf
  obtain ⟨k, hk, hle⟩ := (Names.le_highestIndexFrom hh).2 _ hmem _ (indexDigits?_variableName n)
  subst hk
  rw [Numeral.value_digits] at hle
  simp only [Option.elim_some] at hn
  omega

theorem nextLabel_of_above {names : List String} {f : Fresh} (hf : above names = .ok f) :
    f.nextLabel = 0 := by
  obtain ⟨highest, _, hf⟩ := Except.bind_eq_ok_iff.mp hf
  rw [← Except.pure_eq_ok_iff.mp hf]

/-- `x` is the variable with an index from `n` on and below `n'`. -/
def IsVariable (n n' : Nat) (x : String) : Prop :=
  ∃ j, n ≤ j ∧ j < n' ∧ x = variableName j

theorem not_isVariable_self (n : Nat) (x : String) : ¬ IsVariable n n x := by
  rintro ⟨j, hle, hlt, _⟩
  omega

theorem isVariable_split {n k n' : Nat} (hk : n + 1 ≤ k) (hn' : k ≤ n') (x : String) :
    IsVariable n n' x ↔ x = variableName n ∨ IsVariable (n + 1) k x ∨ IsVariable k n' x := by
  constructor
  · rintro ⟨j, hle, hlt, rfl⟩
    rcases Nat.lt_trichotomy j n with hj | rfl | hj
    · omega
    · exact .inl rfl
    · by_cases hjk : j < k
      · exact .inr (.inl ⟨j, hj, hjk, rfl⟩)
      · exact .inr (.inr ⟨j, Nat.le_of_not_lt hjk, hlt, rfl⟩)
  · rintro (rfl | ⟨j, hle, hlt, rfl⟩ | ⟨j, hle, hlt, rfl⟩)
    · exact ⟨n, Nat.le_refl n, by omega, rfl⟩
    · exact ⟨j, by omega, by omega, rfl⟩
    · exact ⟨j, by omega, hlt, rfl⟩

theorem not_mem_of_isVariable {names : List String} {f : Fresh} {n' : Nat} {x : String}
    (hf : above names = .ok f) (hx : IsVariable f.nextVariable n' x) : x ∉ names := by
  obtain ⟨j, hj, _, rfl⟩ := hx
  exact variableName_not_mem_of_above hf hj

theorem newVariable_eq_ok {f g : Fresh} {x : String} (h : f.newVariable = .ok (x, g)) :
    x = variableName f.nextVariable ∧ g = { f with nextVariable := f.nextVariable + 1 } := by
  unfold newVariable Numeral.write at h
  split at h
  · obtain ⟨rfl, rfl⟩ := Prod.mk.inj (Except.ok.inj h)
    exact ⟨rfl, rfl⟩
  · cases h

/-- An index that can be written gives a variable. -/
theorem newVariable_of_lt {f : Fresh} (h : f.nextVariable < Numeral.bound) :
    f.newVariable =
      .ok (variableName f.nextVariable, { f with nextVariable := f.nextVariable + 1 }) := by
  unfold newVariable Numeral.write
  rw [if_pos h]
  rfl

/-! ### Names with consecutive numbers -/

/-- The names with the numbers from `n` on and below `n'`. -/
def numbered (name : Nat → String) (n n' : Nat) : List String :=
  (List.range' n (n' - n)).map name

section numbered

variable (name : Nat → String) {n k n' : Nat}

theorem numbered_self (n : Nat) : numbered name n n = [] := by
  rw [numbered, Nat.sub_self]
  rfl

theorem numbered_eq_cons (h : n < n') :
    numbered name n n' = name n :: numbered name (n + 1) n' := by
  obtain ⟨d, hd⟩ : ∃ d, n' - n = d + 1 := ⟨n' - n - 1, by omega⟩
  have hd' : n' - (n + 1) = d := by omega
  rw [numbered, numbered, hd, hd', List.range'_succ, List.map_cons]

theorem numbered_append (h : n ≤ k) (h' : k ≤ n') :
    numbered name n k ++ numbered name k n' = numbered name n n' := by
  have hk : k = n + 1 * (k - n) := by omega
  have hsum : n' - n = (k - n) + (n' - k) := by omega
  rw [numbered, numbered, numbered, ← List.map_append, hsum, ← List.range'_append, ← hk]

theorem length_numbered (n n' : Nat) : (numbered name n n').length = n' - n := by
  rw [numbered, List.length_map, List.length_range']

variable {name}

theorem mem_numbered {x : String} :
    x ∈ numbered name n n' ↔ ∃ j, n ≤ j ∧ j < n' ∧ x = name j := by
  rw [numbered, List.mem_map]
  constructor
  · rintro ⟨j, hj, rfl⟩
    rw [List.mem_range'_1] at hj
    exact ⟨j, hj.1, by omega, rfl⟩
  · rintro ⟨j, hle, hlt, rfl⟩
    exact ⟨j, List.mem_range'_1.mpr ⟨hle, by omega⟩, rfl⟩

theorem nodup_numbered (hname : ∀ {i j}, name i = name j → i = j) (n n' : Nat) :
    (numbered name n n').Nodup := by
  rw [numbered, List.nodup_iff_pairwise_ne, List.pairwise_map]
  refine (List.nodup_iff_pairwise_ne.mp List.nodup_range').imp ?_
  exact fun hne heq => hne (hname heq)

end numbered

theorem mem_numbered_variableName {n n' : Nat} {x : String} :
    x ∈ numbered variableName n n' ↔ IsVariable n n' x :=
  mem_numbered

theorem nodup_variables (n n' : Nat) : (numbered variableName n n').Nodup :=
  nodup_numbered variableName_injective n n'

/-- The labels with the numbers from `n` on and below `n'`. -/
def labels (n n' : Nat) : List String :=
  (List.range' n (n' - n)).map labelName

theorem labels_self (n : Nat) : labels n n = [] :=
  numbered_self labelName n

theorem labels_eq_cons {n n' : Nat} (h : n < n') :
    labels n n' = labelName n :: labels (n + 1) n' :=
  numbered_eq_cons labelName h

theorem labels_append {n k n' : Nat} (h : n ≤ k) (h' : k ≤ n') :
    labels n k ++ labels k n' = labels n n' :=
  numbered_append labelName h h'

theorem nodup_labels (n n' : Nat) : (labels n n').Nodup :=
  nodup_numbered labelName_injective n n'

theorem mem_labels {n n' : Nat} {l : String} :
    l ∈ labels n n' ↔ ∃ j, n ≤ j ∧ j < n' ∧ l = labelName j :=
  mem_numbered

/-! ### Drawing many names -/

/-- A call for a new name. -/
inductive Call
  | newVariable
  | newLabel
deriving DecidableEq, Repr

/-- The names that calls have returned. -/
structure Drawn where
  newVariables : List String
  newLabels : List String
deriving DecidableEq, Repr

/-- The names of earlier calls and those of later ones. -/
def Drawn.append (d d' : Drawn) : Drawn :=
  ⟨d.newVariables ++ d'.newVariables, d.newLabels ++ d'.newLabels⟩

/-- What a call returns and what is left.  A call that fails returns no name and leaves the counters
as they are. -/
def answer (f : Fresh) (call : Call) : Drawn × Fresh :=
  match call, f.newVariable with
  | .newVariable, .ok (x, g) => (⟨[x], []⟩, g)
  | .newVariable, .error _ => (⟨[], []⟩, f)
  | .newLabel, _ => (⟨[], [f.newLabel.1]⟩, f.newLabel.2)

/-- The names that calls return, one call after the other. -/
def draw : List Call → Fresh → Drawn
  | [], _ => ⟨[], []⟩
  | call :: calls, f => (f.answer call).1.append (draw calls (f.answer call).2)

/-- The names from one state of the counters to another one. -/
def between (f g : Fresh) : Drawn :=
  ⟨numbered variableName f.nextVariable g.nextVariable, labels f.nextLabel g.nextLabel⟩

theorem answer_eq (f : Fresh) (call : Call) :
    ∃ g, f.nextVariable ≤ g.nextVariable ∧ f.nextLabel ≤ g.nextLabel ∧
      f.answer call = (between f g, g) := by
  unfold answer
  split
  · next x g hg =>
      obtain ⟨rfl, rfl⟩ := newVariable_eq_ok hg
      refine ⟨{ f with nextVariable := f.nextVariable + 1 }, Nat.le_succ _, Nat.le_refl _, ?_⟩
      show _ = (Drawn.mk (numbered variableName f.nextVariable (f.nextVariable + 1))
        (labels f.nextLabel f.nextLabel), _)
      rw [numbered_eq_cons variableName (Nat.lt_succ_self _), numbered_self, labels_self]
  · refine ⟨f, Nat.le_refl _, Nat.le_refl _, ?_⟩
    rw [between, numbered_self, labels_self]
  · refine ⟨f.newLabel.2, Nat.le_refl _, Nat.le_succ _, ?_⟩
    show _ = (Drawn.mk (numbered variableName f.nextVariable f.nextVariable)
      (labels f.nextLabel (f.nextLabel + 1)), _)
    rw [numbered_self, labels_eq_cons (Nat.lt_succ_self _), labels_self]
    rfl

/-- Calls return names with consecutive numbers. -/
theorem draw_eq (calls : List Call) (f : Fresh) :
    ∃ g, f.nextVariable ≤ g.nextVariable ∧ f.nextLabel ≤ g.nextLabel ∧
      draw calls f = between f g := by
  induction calls generalizing f with
  | nil =>
      refine ⟨f, Nat.le_refl _, Nat.le_refl _, ?_⟩
      rw [draw, between, numbered_self, labels_self]
  | cons call calls ih =>
      obtain ⟨g, hv, hl, hanswer⟩ := answer_eq f call
      obtain ⟨k, hv', hl', hdraw⟩ := ih g
      refine ⟨k, Nat.le_trans hv hv', Nat.le_trans hl hl', ?_⟩
      rw [draw, hanswer]
      show (between f g).append (draw calls g) = _
      rw [hdraw, between, between, between, Drawn.append, numbered_append variableName hv hv',
        labels_append hl hl']

theorem length_draw {calls : List Call} {f : Fresh}
    (h : f.nextVariable + calls.count .newVariable ≤ Numeral.bound) :
    (draw calls f).newVariables.length = calls.count .newVariable ∧
      (draw calls f).newLabels.length = calls.count .newLabel := by
  induction calls generalizing f with
  | nil => exact ⟨rfl, rfl⟩
  | cons call calls ih =>
      cases call with
      | newVariable =>
          rw [List.count_cons_self] at h
          have hanswer : f.answer .newVariable = (⟨[variableName f.nextVariable], []⟩,
              { f with nextVariable := f.nextVariable + 1 }) := by
            unfold answer
            rw [newVariable_of_lt (by omega)]
          obtain ⟨hvariables, hlabels⟩ := ih
            (f := { f with nextVariable := f.nextVariable + 1 }) (by simp only; omega)
          rw [draw, hanswer, List.count_cons_self, List.count_cons_of_ne (by decide)]
          exact ⟨congrArg (· + 1) hvariables, hlabels⟩
      | newLabel =>
          rw [List.count_cons_of_ne (by decide)] at h
          have hanswer : f.answer .newLabel = (⟨[], [f.newLabel.1]⟩, f.newLabel.2) := rfl
          obtain ⟨hvariables, hlabels⟩ := ih (f := f.newLabel.2) h
          rw [draw, hanswer, List.count_cons_self, List.count_cons_of_ne (by decide)]
          exact ⟨hvariables, congrArg (· + 1) hlabels⟩

/-- However often names are drawn, no variable comes twice or was in use, and no label comes
twice. -/
theorem draw_of_above {names : List String} {f : Fresh} (hf : above names = .ok f)
    (calls : List Call) :
    (draw calls f).newVariables.Nodup ∧ (∀ x ∈ (draw calls f).newVariables, x ∉ names) ∧
      (draw calls f).newLabels.Nodup := by
  obtain ⟨g, _, _, hdraw⟩ := draw_eq calls f
  rw [hdraw]
  refine ⟨nodup_variables _ _, fun x hx => ?_, nodup_labels _ _⟩
  exact not_mem_of_isVariable hf (mem_numbered_variableName.mp hx)

end Fresh

end CounterPrograms
