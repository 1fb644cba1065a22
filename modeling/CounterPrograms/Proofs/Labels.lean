import CounterPrograms.Labels

/-!
# The table of labels

Labels can be numbered iff no label is carried twice, and the table is then the list of all labels
with their positions (`Labels.table_eq_ok_iff`).  Looking a label up gives the position of the
instruction that carries it.
-/

namespace CounterPrograms

namespace Labels

/-- The labels carried by instructions, in order. -/
def names (is : List Instruction) : List String :=
  is.filterMap Instruction.label

@[simp]
theorem names_nil : names [] = [] := rfl

@[simp]
theorem names_cons (i : Instruction) (is : List Instruction) :
    names (i :: is) = i.label.toList ++ names is := by
  unfold names
  rw [List.filterMap_cons]
  cases i.label <;> rfl

@[simp]
theorem names_append (is js : List Instruction) : names (is ++ js) = names is ++ names js :=
  List.filterMap_append

theorem map_fst_carried (base : Nat) (is : List Instruction) :
    (carried base is).map Prod.fst = names is := by
  induction is generalizing base with
  | nil => rfl
  | cons i is ih =>
      rw [carried, names_cons]
      cases i.label with
      | none => exact ih (base + 1)
      | some l => exact congrArg (l :: ·) (ih (base + 1))

theorem addAll_eq_ok_iff {before xs ys : List (String × Nat)} :
    addAll before xs = .ok ys ↔
      ys = before ++ xs ∧ (xs.map Prod.fst).Nodup ∧
        ∀ l ∈ xs.map Prod.fst, before.lookup l = none := by
  induction xs generalizing before with
  | nil =>
      rw [addAll, Except.ok.injEq, List.append_nil]
      constructor
      · exact fun h => ⟨h.symm, List.nodup_nil, fun _ hl => absurd hl List.not_mem_nil⟩
      · exact fun h => h.1.symm
  | cons x xs ih =>
      obtain ⟨l, p⟩ := x
      rw [addAll, List.map_cons, List.nodup_cons]
      cases hl : before.lookup l with
      | some q =>
          refine ⟨fun h => ?_, fun ⟨_, _, h⟩ => ?_⟩
          · simp at h
          · rw [h l List.mem_cons_self] at hl
            cases hl
      | none =>
          have hlook : ∀ k, (before ++ [(l, p)]).lookup k = none ↔
              before.lookup k = none ∧ k ≠ l := by
            intro k
            have hnew : [(l, p)].lookup k = none ↔ k ≠ l := by simp
            rw [List.lookup_append, Option.or_eq_none_iff, hnew]
          rw [Option.isSome_none, if_neg Bool.false_ne_true, ih, List.append_assoc,
            List.singleton_append]
          refine and_congr_right fun _ => ?_
          constructor
          · rintro ⟨hn, hd⟩
            refine ⟨⟨fun hmem => ((hlook l).mp (hd l hmem)).2 rfl, hn⟩, ?_⟩
            intro k hk
            rcases List.mem_cons.mp hk with rfl | hk
            · exact hl
            · exact ((hlook k).mp (hd k hk)).1
          · rintro ⟨⟨hmem, hn⟩, hd⟩
            refine ⟨hn, fun k hk => (hlook k).mpr ⟨hd k (List.mem_cons_of_mem l hk), ?_⟩⟩
            rintro rfl
            exact hmem hk

/-- Labels can be numbered iff none is repeated. -/
theorem table_eq_ok_iff {base : Nat} {is : List Instruction} {ps : List (String × Nat)} :
    table base is = .ok ps ↔ ps = carried base is ∧ (names is).Nodup := by
  rw [table, addAll_eq_ok_iff, map_fst_carried, List.nil_append]
  simp

/-! ### Looking labels up -/

theorem lookup_eq_none_iff {xs : List (String × Nat)} {l : String} :
    xs.lookup l = none ↔ l ∉ xs.map Prod.fst := by
  rw [List.lookup_eq_none_iff, List.mem_map]
  constructor
  · rintro h ⟨x, hx, rfl⟩
    exact bne_iff_ne.mp (h x hx) rfl
  · intro h x hx
    exact bne_iff_ne.mpr fun heq => h ⟨x, hx, heq.symm⟩

theorem lookup_carried_eq_none_iff {base : Nat} {is : List Instruction} {l : String} :
    (carried base is).lookup l = none ↔ l ∉ names is := by
  rw [lookup_eq_none_iff, map_fst_carried]

theorem exists_of_lookup_carried {base p : Nat} {is : List Instruction} {l : String}
    (h : (carried base is).lookup l = some p) :
    ∃ j i, is[j]? = some i ∧ i.label = some l ∧ p = base + j := by
  induction is generalizing base with
  | nil => cases h
  | cons i is ih =>
      rw [carried] at h
      cases hi : i.label with
      | none =>
          rw [hi] at h
          obtain ⟨j, i', hj, hl, rfl⟩ := ih h
          exact ⟨j + 1, i', hj, hl, by omega⟩
      | some k =>
          rw [hi] at h
          simp only [List.lookup_cons] at h
          by_cases hk : l = k
          · subst hk
            rw [beq_self_eq_true] at h
            obtain rfl := Option.some.inj h
            exact ⟨0, i, rfl, hi, rfl⟩
          · rw [beq_eq_false_iff_ne.mpr hk] at h
            obtain ⟨j, i', hj, hl, rfl⟩ := ih h
            exact ⟨j + 1, i', hj, hl, by omega⟩

/-- If no label is repeated, each is found where it stands. -/
theorem lookup_carried_of_nodup {base j : Nat} {is : List Instruction} {i : Instruction}
    {l : String} (hn : (names is).Nodup) (hj : is[j]? = some i) (hl : i.label = some l) :
    (carried base is).lookup l = some (base + j) := by
  induction is generalizing base j with
  | nil => cases hj
  | cons k is ih =>
      rw [names_cons] at hn
      rw [carried]
      cases j with
      | zero =>
          obtain rfl : k = i := Option.some.inj hj
          rw [hl]
          exact List.lookup_cons_self
      | succ j =>
          have hj' : is[j]? = some i := hj
          have hmem : l ∈ names is := List.mem_filterMap.mpr ⟨i, List.mem_of_getElem? hj', hl⟩
          have hrec : (carried (base + 1) is).lookup l = some (base + 1 + j) :=
            ih (List.nodup_append.mp hn).2.1 hj'
          cases hk : k.label with
          | none => rw [hrec, Nat.add_assoc, Nat.add_comm 1]
          | some l' =>
              rw [hk] at hn
              have hne : l ≠ l' := by
                rintro rfl
                exact (List.nodup_cons.mp hn).1 hmem
              simp only [List.lookup_cons, beq_eq_false_iff_ne.mpr hne]
              rw [hrec, Nat.add_assoc, Nat.add_comm 1]

theorem lookup_carried_succ (base : Nat) (is : List Instruction) (l : String) :
    (carried (base + 1) is).lookup l = ((carried base is).lookup l).map (· + 1) := by
  induction is generalizing base with
  | nil => rfl
  | cons i is ih =>
      rw [carried, carried]
      cases i.label with
      | none => exact ih (base + 1)
      | some k =>
          simp only [List.lookup_cons]
          cases l == k with
          | true => rfl
          | false => exact ih (base + 1)

end Labels

end CounterPrograms
