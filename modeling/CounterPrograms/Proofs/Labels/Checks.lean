import CounterPrograms.Proofs.Labels

/-!
# What a check of labels finds

Nothing is wrong with the labels of a program iff no label is carried twice and every jump has a
target (`Labels.problems_eq_nil_iff`).  If a label is carried twice, numbering the labels stops at
the first one that was there before, whatever the position of the first instruction
(`Labels.table_of_not_nodup`).
-/

namespace CounterPrograms

namespace Labels

/-- The labels to which instructions jump, in order. -/
def targets (is : List Instruction) : List String :=
  is.filterMap fun i => i.statement.jumpTarget?

theorem targets_cons (i : Instruction) (is : List Instruction) :
    targets (i :: is) = i.statement.jumpTarget?.toList ++ targets is := by
  unfold targets
  rw [List.filterMap_cons]
  cases i.statement.jumpTarget? <;> rfl

theorem targets_append (is js : List Instruction) : targets (is ++ js) = targets is ++ targets js :=
  List.filterMap_append

/-! ### Nothing is wrong -/

/-- No label is repeated iff none comes twice among the labels, or among these and those seen
before. -/
theorem duplicates_eq_nil_iff {seen xs : List (String × Nat)} :
    duplicates seen xs = [] ↔
      (xs.map Prod.fst).Nodup ∧ ∀ l ∈ xs.map Prod.fst, seen.lookup l = none := by
  induction xs generalizing seen with
  | nil => simp [duplicates]
  | cons x xs ih =>
      obtain ⟨l, p⟩ := x
      rw [duplicates, List.map_cons, List.nodup_cons, List.forall_mem_cons]
      cases hl : seen.lookup l with
      | some first => simp
      | none =>
          have hseen : ∀ k, ((l, p) :: seen).lookup k = none ↔ k ≠ l ∧ seen.lookup k = none := by
            intro k
            rw [lookup_eq_none_iff, lookup_eq_none_iff, List.map_cons, List.mem_cons, not_or]
          simp only [ih, hseen]
          constructor
          · rintro ⟨hn, hk⟩
            exact ⟨⟨fun hmem => (hk l hmem).1 rfl, hn⟩, trivial, fun k hmem => (hk k hmem).2⟩
          · rintro ⟨⟨hout, hn⟩, _, hk⟩
            exact ⟨hn, fun k hmem => ⟨fun heq => hout (heq ▸ hmem), hk k hmem⟩⟩

theorem missing_eq_nil_iff {labels : List String} {base : Nat} {is : List Instruction} :
    missing labels base is = [] ↔ ∀ l ∈ targets is, l ∈ labels := by
  induction is generalizing base with
  | nil => simp [missing, targets]
  | cons i is ih =>
      rw [missing, targets_cons, List.forall_mem_append]
      cases i.statement.jumpTarget? with
      | none => simpa using ih
      | some l =>
          by_cases hl : l ∈ labels
          · simpa [hl] using ih
          · simp [hl]

/-- Nothing is wrong iff no label is repeated and every jump has a target. -/
theorem problems_eq_nil_iff {is : List Instruction} :
    problems is = [] ↔ (names is).Nodup ∧ ∀ l ∈ targets is, l ∈ names is := by
  have hseen : ∀ l ∈ names is, ([] : List (String × Nat)).lookup l = none := fun _ _ => rfl
  unfold problems
  simp only [List.append_eq_nil_iff, duplicates_eq_nil_iff, missing_eq_nil_iff, map_fst_carried]
  rw [and_iff_left hseen]

/-! ### Repeated labels -/

/-- `l` is the first of the given names that was there before. -/
def IsFirstRepeated (l : String) (ls : List String) : Prop :=
  ∃ before rest, ls = before ++ l :: rest ∧ before.Nodup ∧ l ∈ before

/-- Where one list of names goes on with a name that it has already, a longer one has that name
twice. -/
theorem eq_of_append_eq {before mid rest rest' : List String} {l k : String}
    (heq : l :: rest = mid ++ k :: rest') (hn : (before ++ mid).Nodup) (hl : l ∈ before) :
    l = k := by
  cases mid with
  | nil => exact (List.cons.inj heq).1
  | cons m mid =>
      obtain rfl : l = m := (List.cons.inj heq).1
      exact absurd rfl ((List.nodup_append.mp hn).2.2 l hl l List.mem_cons_self)

theorem IsFirstRepeated.unique {l k : String} {ls : List String} (h : IsFirstRepeated l ls)
    (h' : IsFirstRepeated k ls) : l = k := by
  obtain ⟨before, rest, rfl, hn, hl⟩ := h
  obtain ⟨before', rest', heq, hn', hk⟩ := h'
  rcases List.append_eq_append_iff.mp heq with ⟨mid, rfl, hmid⟩ | ⟨mid, rfl, hmid⟩
  · exact eq_of_append_eq hmid hn' hl
  · exact (eq_of_append_eq hmid hn hk).symm

/-- Labels are added up to the first that was there before. -/
theorem isFirstRepeated_of_addAll {before xs : List (String × Nat)} {r : Repeated}
    (hn : (before.map Prod.fst).Nodup) (h : addAll before xs = .error r) :
    IsFirstRepeated r.label (before.map Prod.fst ++ xs.map Prod.fst) := by
  induction xs generalizing before with
  | nil => cases h
  | cons x xs ih =>
      obtain ⟨l, p⟩ := x
      rw [addAll] at h
      by_cases hl : l ∈ before.map Prod.fst
      · have hsome : (before.lookup l).isSome = true :=
          Option.isSome_iff_ne_none.mpr fun hnone => lookup_eq_none_iff.mp hnone hl
        rw [if_pos hsome] at h
        obtain rfl := Except.error.inj h
        exact ⟨before.map Prod.fst, xs.map Prod.fst, rfl, hn, hl⟩
      · rw [lookup_eq_none_iff.mpr hl] at h
        have hn' : ((before ++ [(l, p)]).map Prod.fst).Nodup := by
          simpa [List.nodup_append] using ⟨hn, fun k q hmem heq => hl (heq ▸ List.mem_map_of_mem hmem)⟩
        have hrest := ih hn' h
        rwa [List.map_append, List.append_assoc] at hrest

/-- If a label is repeated, numbering the labels stops at the first one that is, wherever the count
begins. -/
theorem table_of_not_nodup {is : List Instruction} (h : ¬ (names is).Nodup) :
    ∃ l, IsFirstRepeated l (names is) ∧
      ∀ base, ∃ before, table base is = .error ⟨l, before⟩ := by
  have hstop : ∀ base, ∃ l before,
      table base is = .error ⟨l, before⟩ ∧ IsFirstRepeated l (names is) := by
    intro base
    cases htable : table base is with
    | ok ps => exact absurd (table_eq_ok_iff.mp htable).2 h
    | error r =>
        have hnil : (([] : List (String × Nat)).map Prod.fst).Nodup := List.nodup_nil
        have hfirst := isFirstRepeated_of_addAll hnil htable
        rw [map_fst_carried] at hfirst
        exact ⟨r.label, r.before, rfl, hfirst⟩
  obtain ⟨l, _, _, hl⟩ := hstop 0
  refine ⟨l, hl, fun base => ?_⟩
  obtain ⟨k, before, htable, hk⟩ := hstop base
  obtain rfl := hl.unique hk
  exact ⟨before, htable⟩

end Labels

end CounterPrograms
