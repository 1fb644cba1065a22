import CounterPrograms.Bindings
import CounterPrograms.Decimal.Basic

/-!
# JSON values

The values that trees, requests and replies are made of.  A number without fraction and exponent is
an integer; every other number with digits is a decimal.  The fields of an object keep their order.
-/

namespace CounterPrograms

/-- The numbers without digits: the infinities, and the one that stands for no number. -/
inductive NonFinite
  | infinity
  | negativeInfinity
  | notANumber
deriving DecidableEq, Repr

namespace NonFinite

/-- How JSON text spells a number without digits, where it admits one. -/
def spelling : NonFinite → String
  | infinity => "Infinity"
  | negativeInfinity => "-Infinity"
  | notANumber => "NaN"

end NonFinite

/-- A JSON value. -/
inductive Json
  | null
  | bool (value : Bool)
  | int (value : Int)
  | decimal (value : Decimal)
  | nonFinite (value : NonFinite)
  | str (value : String)
  | arr (elements : List Json)
  | obj (fields : List (String × Json))
deriving Repr, Inhabited

namespace Json

/-- The field `name` of an object. -/
def field? (name : String) : Json → Option Json
  | obj fields => fields.lookup name
  | _ => none

/-- The field `name` of an object, unless it is null. -/
def present? (name : String) (j : Json) : Option Json :=
  match j.field? name with
  | some null => none
  | found => found

/-- The text of a string. -/
def str? : Json → Option String
  | str s => some s
  | _ => none

/-- The elements of an array. -/
def arr? : Json → Option (List Json)
  | arr elements => some elements
  | _ => none

/-- The value of an integer. -/
def int? : Json → Option Int
  | int n => some n
  | _ => none

/-! ### Parts of a value

A part comes with the proof that it is smaller than the whole, so that a function may call itself
on it. -/

theorem sizeOf_lookup_lt {name : String} {j : Json} {fields : List (String × Json)}
    (h : fields.lookup name = some j) : sizeOf j < sizeOf fields := by
  induction fields with
  | nil => cases h
  | cons p rest ih =>
    obtain ⟨n, v⟩ := p
    simp only [List.cons.sizeOf_spec, Prod.mk.sizeOf_spec]
    rw [List.lookup_cons] at h
    split at h
    · cases h
      omega
    · have := ih h
      omega

theorem sizeOf_field?_lt {name : String} {j v : Json} (h : j.field? name = some v) :
    sizeOf v < sizeOf j := by
  cases j with
  | obj fields =>
    have := sizeOf_lookup_lt h
    simp only [obj.sizeOf_spec]
    omega
  | _ => simp [field?] at h

/-- The field `name` of an object. -/
def part? (j : Json) (name : String) : Option { v : Json // sizeOf v < sizeOf j } :=
  match h : j.field? name with
  | some v => some ⟨v, sizeOf_field?_lt h⟩
  | none => none

/-- The elements of an array. -/
def items (j : Json) : List { v : Json // sizeOf v < sizeOf j } :=
  match j with
  | arr elements => elements.attach.map fun v => ⟨v.1, by
      have := List.sizeOf_lt_of_mem v.2
      simp only [arr.sizeOf_spec]
      omega⟩
  | _ => []

/-- The elements of the array in the field `name` of an object. -/
def parts (j : Json) (name : String) : List { v : Json // sizeOf v < sizeOf j } :=
  match j.part? name with
  | some ⟨a, ha⟩ => a.items.map fun v => ⟨v.1, Nat.lt_trans v.2 ha⟩
  | none => []

@[simp]
theorem part?_val (j : Json) (name : String) :
    (j.part? name).map Subtype.val = j.field? name := by
  unfold part?
  split <;> simp_all

@[simp]
theorem items_val (elements : List Json) :
    (arr elements).items.map Subtype.val = elements := by
  simp [items, Function.comp_def]

end Json

end CounterPrograms
