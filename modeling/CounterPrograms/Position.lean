/-!
# Positions in a text

A position counts the characters before it and knows its line and column, both counted from one.
A line feed ends its line; every other character takes one column.
-/

namespace CounterPrograms

/-- A place between two characters of a text. -/
structure Position where
  offset : Nat
  line : Nat
  column : Nat
deriving DecidableEq, Repr

namespace Position

/-- The beginning of a text. -/
def start : Position := ⟨0, 1, 1⟩

/-- The position after the character `c`. -/
def after (p : Position) (c : Char) : Position :=
  if c = '\n' then ⟨p.offset + 1, p.line + 1, 1⟩ else ⟨p.offset + 1, p.line, p.column + 1⟩

/-- The position after all characters of `cs`. -/
def afterAll (p : Position) (cs : List Char) : Position :=
  cs.foldl after p

/-- One column further where no character is left. -/
def beyond (p : Position) : Position :=
  ⟨p.offset + 1, p.line, p.column + 1⟩

@[simp]
theorem afterAll_nil (p : Position) : p.afterAll [] = p := rfl

@[simp]
theorem afterAll_cons (p : Position) (c : Char) (cs : List Char) :
    p.afterAll (c :: cs) = (p.after c).afterAll cs := rfl

theorem afterAll_append (p : Position) (cs ds : List Char) :
    p.afterAll (cs ++ ds) = (p.afterAll cs).afterAll ds :=
  List.foldl_append

@[simp]
theorem offset_after (p : Position) (c : Char) : (p.after c).offset = p.offset + 1 := by
  unfold after
  split <;> rfl

@[simp]
theorem offset_afterAll (p : Position) (cs : List Char) :
    (p.afterAll cs).offset = p.offset + cs.length := by
  induction cs generalizing p with
  | nil => rfl
  | cons c cs ih =>
    simp only [afterAll_cons, ih, offset_after, List.length_cons]
    omega

end Position

end CounterPrograms
