import CounterPrograms.Program.Parser

/-!
# Reading tokens by hand

A reader stands at a token of a list, looks at the tokens from there on and moves behind the phrases
it reads.  It may move beyond the end of the list.
-/

namespace CounterPrograms

/-- A list of tokens and a position in it or behind it. -/
structure TokenReader where
  tokens : List Token
  position : Nat
deriving DecidableEq, Repr

namespace TokenReader

/-- The reader at the first of some tokens. -/
def ofTokens (ts : List Token) : TokenReader := ⟨ts, 0⟩

/-- The reader at the first of some tokens without the mark of the end of the text. -/
def ofWords (ts : List Token) : TokenReader :=
  ⟨ts.filter fun t => t.kind ≠ .endOfText, 0⟩

variable (r : TokenReader)

/-- The tokens from the reader on. -/
def rest : List Token :=
  r.tokens.drop r.position

/-- The token `n` places after the reader, if the list goes as far.  Places before the beginning are
counted back from the end of the list; one that lies still further back is an index out of range,
which gives no token here. -/
def peek? (n : Int) : Option Token :=
  match r.position + n with
  | .ofNat i => r.tokens[i]?
  | .negSucc i => r.tokens.reverse[i]?

/-- The token at the reader. -/
def current? : Option Token :=
  r.tokens[r.position]?

/-- Moves one place on and gives the token left behind. -/
def advance : Option Token × TokenReader :=
  (r.current?, { r with position := r.position + 1 })

/-- The reader from which on only `left` remains to be read. -/
def leaving (left : List Token) : TokenReader :=
  { r with position := r.position + (r.rest.length - left.length) }

/-- Reads a phrase.  The reader moves behind it, or to the token at which reading stopped. -/
def read {n : Nat} {α : Type}
    (phrase : (ts : List Token) → Except Parser.Stop (Parser.Reading n ts α)) :
    Except ParseError α × TokenReader :=
  match phrase r.rest with
  | .ok done => (.ok done.value, r.leaving done.rest)
  | .error stop => (.error stop.error, r.leaving stop.rest)

end TokenReader

end CounterPrograms
