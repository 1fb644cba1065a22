import CounterPrograms.Numeral

/-!
# Tokens

The words of the three languages, which share one alphabet and one set of keywords.
-/

namespace CounterPrograms

/-- The kinds of tokens. -/
inductive TokenKind
  | keyword
  | identifier
  | number
  | operator
  | comparison
  | assign
  | semicolon
  | colon
  | endOfText
deriving DecidableEq, Repr

namespace TokenKind

/-- All kinds. -/
def all : List TokenKind :=
  [keyword, identifier, number, operator, comparison, assign, semicolon, colon, endOfText]

/-- The name of a kind in messages. -/
def name : TokenKind → String
  | keyword => "KEYWORD"
  | identifier => "IDENTIFIER"
  | number => "NUMBER"
  | operator => "OPERATOR"
  | comparison => "COMPARISON"
  | assign => "ASSIGN"
  | semicolon => "SEMICOLON"
  | colon => "COLON"
  | endOfText => "EOF"

/-- The kind with a given name. -/
def ofName? (s : String) : Option TokenKind :=
  all.find? fun k => k.name = s

@[simp]
theorem ofName?_name (k : TokenKind) : ofName? k.name = some k := by
  cases k <;> decide

end TokenKind

/-- A token: its kind, its characters, and the line and column of the first of them. -/
structure Token where
  kind : TokenKind
  text : String
  line : Nat
  column : Nat
deriving DecidableEq, Repr

namespace Token

/-- The words that are keywords. -/
def keywords : List String :=
  ["LOOP", "DO", "END", "WHILE", "IF", "THEN", "ELSE", "GOTO", "HALT"]

/-- The kind of a word of letters and digits that begins with a letter. -/
def kindOfWord (word : String) : TokenKind :=
  if word ∈ keywords then .keyword else .identifier

/-- Whether the token has the given kind and, if a text is asked for, that text. -/
def isOf (t : Token) (kind : TokenKind) (text : Option String) : Bool :=
  t.kind = kind && text.all (· = t.text)

/-- How a message shows the token it did not expect; `none` stands for the end of the tokens. -/
def describe : Option Token → String
  | some t => if t.kind = .endOfText then "EOF" else t.kind.name ++ "('" ++ t.text ++ "')"
  | none => "EOF"

end Token

end CounterPrograms
