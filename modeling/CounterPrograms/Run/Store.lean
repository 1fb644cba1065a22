/-!
# Stores

The values of the variables that have been given one, in the order of their names.  The view of a
store is `get?`; a variable without a value counts as zero.
-/

namespace CounterPrograms

/-- The values of the variables that have one. -/
structure Store where
  entries : List (String × Int)
deriving DecidableEq, Repr

namespace Store

/-- The store in which no variable has a value. -/
def empty : Store := ⟨[]⟩

/-- The value of a variable that has one. -/
def get? (s : Store) (name : String) : Option Int :=
  s.entries.lookup name

/-- The value of a variable, zero if it has none. -/
def value (s : Store) (name : String) : Int :=
  (s.get? name).getD 0

/-- Puts an entry in its place in the order of names, instead of an earlier entry of its name. -/
def insertEntry (name : String) (value : Int) : List (String × Int) → List (String × Int)
  | [] => [(name, value)]
  | (n, v) :: rest =>
    if name = n then (name, value) :: rest
    else if name < n then (name, value) :: (n, v) :: rest
    else (n, v) :: insertEntry name value rest

/-- Gives a variable a value. -/
def set (s : Store) (name : String) (value : Int) : Store :=
  ⟨insertEntry name value s.entries⟩

@[simp]
theorem get?_empty (name : String) : empty.get? name = none := rfl

theorem lookup_insertEntry (name other : String) (value : Int) (entries : List (String × Int)) :
    (insertEntry name value entries).lookup other =
      if other = name then some value else entries.lookup other := by
  induction entries with
  | nil => grind [insertEntry]
  | cons e rest ih => grind [insertEntry]

@[simp]
theorem get?_set (s : Store) (name other : String) (value : Int) :
    (s.set name value).get? other = if other = name then some value else s.get? other :=
  lookup_insertEntry name other value s.entries

@[simp]
theorem value_set (s : Store) (name other : String) (value : Int) :
    (s.set name value).value other = if other = name then value else s.value other := by
  simp only [Store.value, get?_set]
  split <;> rfl

end Store

end CounterPrograms
