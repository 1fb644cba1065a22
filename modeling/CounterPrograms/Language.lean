/-!
# The three languages

LOOP programs repeat a block a number of times fixed beforehand, WHILE programs repeat it as long
as a condition holds, and GOTO programs jump between labelled instructions.
-/

namespace CounterPrograms

/-- The languages. -/
inductive Language
  | loop
  | whileDo
  | goto
deriving DecidableEq, Repr

namespace Language

/-- All languages. -/
def all : List Language := [loop, whileDo, goto]

/-- The name of a language. -/
def name : Language → String
  | loop => "loop"
  | whileDo => "while"
  | goto => "goto"

/-- The name of a language in capitals. -/
def title : Language → String
  | loop => "LOOP"
  | whileDo => "WHILE"
  | goto => "GOTO"

/-- The language with a given name. -/
def ofName? (s : String) : Option Language :=
  all.find? fun l => l.name = s

@[simp]
theorem ofName?_name (l : Language) : ofName? l.name = some l := by
  cases l <;> decide

/-- The message for a name that no language has. -/
def unknownMessage (s : String) : String :=
  "Linguagem desconhecida: '" ++ s ++ "'"

end Language

end CounterPrograms
