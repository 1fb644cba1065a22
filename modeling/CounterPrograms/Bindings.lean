/-!
# Lists of named values

Values bound to names, in the order in which the names were first bound.  Binding a name again
replaces its value and leaves it in its place, so the list of names never holds one twice.
-/

namespace CounterPrograms

namespace Bindings

variable {α : Type}

/-- Binds `name` to `value`: in the place of its earlier value if it has one, at the end if not. -/
def put (name : String) (value : α) : List (String × α) → List (String × α)
  | [] => [(name, value)]
  | (n, v) :: rest => if n = name then (name, value) :: rest else (n, v) :: put name value rest

/-- Binds the names of `pairs` one after the other. -/
def ofPairs (pairs : List (String × α)) : List (String × α) :=
  pairs.foldl (fun bound p => put p.1 p.2 bound) []

@[simp]
theorem lookup_put (name other : String) (value : α) (bound : List (String × α)) :
    (put name value bound).lookup other =
      if other = name then some value else bound.lookup other := by
  induction bound with
  | nil => grind [put]
  | cons p rest ih => grind [put]

theorem mem_of_mem_put {name : String} {value : α} {p : String × α} {bound : List (String × α)}
    (h : p ∈ put name value bound) : p = (name, value) ∨ p ∈ bound := by
  induction bound with
  | nil => exact Or.inl (List.mem_singleton.mp h)
  | cons q rest ih =>
      rw [put] at h
      split at h
      · rcases List.mem_cons.mp h with h | h
        · exact Or.inl h
        · exact Or.inr (List.mem_cons_of_mem q h)
      · rcases List.mem_cons.mp h with h | h
        · exact Or.inr (List.mem_cons.mpr (Or.inl h))
        · exact (ih h).imp_right (List.mem_cons_of_mem q)

theorem mem_of_mem_ofPairs {pairs : List (String × α)} {p : String × α}
    (h : p ∈ ofPairs pairs) : p ∈ pairs := by
  have hfold : ∀ qs bound : List (String × α),
      p ∈ qs.foldl (fun bound q => put q.1 q.2 bound) bound → p ∈ bound ∨ p ∈ qs := by
    intro qs
    induction qs with
    | nil => exact fun _ h => Or.inl h
    | cons q qs ih =>
        intro bound h
        rcases ih _ h with h | h
        · rcases mem_of_mem_put h with h | h
          · exact Or.inr (List.mem_cons.mpr (Or.inl h))
          · exact Or.inl h
        · exact Or.inr (List.mem_cons_of_mem q h)
  exact (hfold pairs [] h).resolve_left List.not_mem_nil

theorem nodup_put {name : String} {value : α} {bound : List (String × α)}
    (h : (bound.map Prod.fst).Nodup) : ((put name value bound).map Prod.fst).Nodup := by
  induction bound with
  | nil => exact List.nodup_cons.mpr ⟨List.not_mem_nil, List.nodup_nil⟩
  | cons q rest ih =>
      obtain ⟨hq, hrest⟩ := List.nodup_cons.mp h
      rw [put]
      split
      · next heq => exact List.nodup_cons.mpr ⟨heq ▸ hq, hrest⟩
      · next hne =>
          refine List.nodup_cons.mpr ⟨fun hmem => ?_, ih hrest⟩
          obtain ⟨p, hp, hfst⟩ := List.mem_map.mp hmem
          rcases mem_of_mem_put hp with rfl | hp
          · exact hne hfst.symm
          · exact hq (hfst ▸ List.mem_map_of_mem hp)

/-- No name is bound twice. -/
theorem nodup_ofPairs (pairs : List (String × α)) : ((ofPairs pairs).map Prod.fst).Nodup := by
  have hfold : ∀ qs bound : List (String × α), (bound.map Prod.fst).Nodup →
      ((qs.foldl (fun bound q => put q.1 q.2 bound) bound).map Prod.fst).Nodup := by
    intro qs
    induction qs with
    | nil => exact fun _ h => h
    | cons q qs ih => exact fun bound h => ih _ (nodup_put h)
  exact hfold pairs [] List.nodup_nil

end Bindings

end CounterPrograms
