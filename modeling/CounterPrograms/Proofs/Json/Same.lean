import CounterPrograms.Program.Tree.Basic
import Mathlib.Data.List.Forall2

/-!
# Values that differ in the order of fields

The fields of an object have an order here, which has no meaning.  `Json.Same a b` says that `a` and
`b` are the same value when the order of fields does not count, at any depth.  What is found under a
name is then the same in both (`Same.field?`), so whoever reads a value by the names of its fields
cannot tell them apart.
-/

namespace CounterPrograms

namespace Json

/-- The two values are equal up to the order of fields: objects are the same if every name has the
same value in both, or none in both. -/
inductive Same : Json → Json → Prop
  | refl (j : Json) : Same j j
  | arr {xs ys : List Json} : List.Forall₂ Same xs ys → Same (arr xs) (arr ys)
  | obj {fields fields' : List (String × Json)} :
      (∀ name, Option.Rel Same (fields.lookup name) (fields'.lookup name)) →
      Same (obj fields) (obj fields')

namespace Same

variable {j k v : Json} {name : String}

theorem eq_str {s : String} (h : Same (.str s) j) : j = .str s := by
  cases h
  rfl

theorem eq_int {n : Int} (h : Same (.int n) j) : j = .int n := by
  cases h
  rfl

theorem forall₂_refl (xs : List Json) : List.Forall₂ Same xs xs := by
  induction xs with
  | nil => exact .nil
  | cons x xs ih => exact .cons (.refl x) ih

theorem exists_arr {xs : List Json} (h : Same (.arr xs) j) :
    ∃ ys, j = .arr ys ∧ List.Forall₂ Same xs ys := by
  cases h with
  | refl => exact ⟨xs, rfl, forall₂_refl xs⟩
  | arr h => exact ⟨_, rfl, h⟩

/-- Under every name the same value is found. -/
theorem field? (h : Same j k) (name : String) :
    Option.Rel Same (j.field? name) (k.field? name) := by
  cases h with
  | refl =>
      cases j.field? name with
      | none => exact .none
      | some v => exact .some (.refl v)
  | arr => exact .none
  | obj h => exact h name

theorem exists_field? (h : Same j k) (name : String) (hj : j.field? name = some v) :
    ∃ w, k.field? name = some w ∧ Same v w := by
  have hrel := h.field? name
  rw [hj] at hrel
  cases hk : k.field? name with
  | none =>
      rw [hk] at hrel
      cases hrel
  | some w =>
      rw [hk] at hrel
      cases hrel with
      | some hvw => exact ⟨w, rfl, hvw⟩

theorem field?_eq_none (h : Same j k) (hj : j.field? name = none) : k.field? name = none := by
  have hrel := h.field? name
  rw [hj] at hrel
  cases hk : k.field? name with
  | none => rfl
  | some w =>
      rw [hk] at hrel
      cases hrel

theorem field?_str {s : String} (h : Same j k) (hj : j.field? name = some (.str s)) :
    k.field? name = some (.str s) := by
  obtain ⟨w, hk, hw⟩ := h.exists_field? name hj
  rw [hk, hw.eq_str]

theorem field?_int {n : Int} (h : Same j k) (hj : j.field? name = some (.int n)) :
    k.field? name = some (.int n) := by
  obtain ⟨w, hk, hw⟩ := h.exists_field? name hj
  rw [hk, hw.eq_int]

theorem field?_arr {xs : List Json} (h : Same j k) (hj : j.field? name = some (.arr xs)) :
    ∃ ys, k.field? name = some (.arr ys) ∧ List.Forall₂ Same xs ys := by
  obtain ⟨w, hk, hw⟩ := h.exists_field? name hj
  obtain ⟨ys, rfl, hys⟩ := hw.exists_arr
  exact ⟨ys, hk, hys⟩

end Same

end Json

namespace Tree

variable {j : Json} {k name s : String} {fields : List (String × Json)}

@[simp]
theorem field?_node : (node k fields).field? name =
    if name = "type" then some (.str k) else fields.lookup name := by
  have hlookup : (node k fields).field? name = (("type", .str k) :: fields).lookup name := rfl
  by_cases h : name = "type"
  · rw [if_pos h, hlookup, h, List.lookup_cons_self]
  · rw [if_neg h, hlookup, List.lookup_cons, beq_false_of_ne h]

theorem kind_eq_of_field? (h : j.field? "type" = some (.str k)) : kind j = k := by
  cases j with
  | obj fields =>
      have hlookup : fields.lookup "type" = some (.str k) := h
      simp only [kind, hlookup]
  | _ => cases h

theorem kind_of_same (h : (node k fields).Same j) : kind j = k :=
  kind_eq_of_field? (h.field?_str field?_node)

theorem text_of_field? (h : j.field? name = some (.str s)) : text j name = s := by
  unfold text
  rw [h]
  rfl

end Tree

end CounterPrograms
