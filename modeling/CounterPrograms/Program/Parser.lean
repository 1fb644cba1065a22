import CounterPrograms.Program.Basic
import CounterPrograms.Token.Lexer

/-!
# From tokens to programs

Recursive descent over the list of tokens.  Each function reads one phrase at the head of the list
and returns its tree with the tokens left, or stops with an error at the token where it went wrong.
A reading carries the proof of how many tokens it took at least, which is why statements and blocks
may call each other.

* operand: a number or an identifier;
* expression: an operand, or two with an operator between them, and no third;
* condition: two expressions with a comparison between them;
* assignment: `identifier := expression ;`;
* LOOP: an assignment, or `LOOP identifier DO … END`;
* WHILE: an assignment, `WHILE condition DO … END`, or `IF condition THEN … END` with an optional
  `ELSE …` before its `END`;
* GOTO: an assignment, `GOTO label ;`, `IF condition GOTO label ;` with an optional `THEN`, or
  `HALT ;`; before each of them a label and a colon may stand.
-/

namespace CounterPrograms

/-- What was expected at a token. -/
inductive Expectation
  /-- The word with the given text. -/
  | word (text : String)
  /-- Any token of the given kind. -/
  | kind (kind : TokenKind)
  /-- A number or an identifier. -/
  | operand
  /-- A statement of the given language. -/
  | statement (language : Language)
  /-- One of the given words. -/
  | oneOf (words : List String)
  /-- The end of an expression. -/
  | expressionEnd
deriving DecidableEq, Repr

namespace Expectation

/-- A text between single quotes. -/
def enclosed (s : String) : String := "'" ++ s ++ "'"

/-- The text of an expectation in messages. -/
def text : Expectation → String
  | word s => enclosed s
  | kind k => k.name
  | operand => "NUMBER ou IDENTIFIER"
  | statement .loop => "IDENTIFIER ou 'LOOP'"
  | statement .whileDo => "IDENTIFIER, 'WHILE' ou 'IF'"
  | statement .goto => "IDENTIFIER, 'GOTO', 'IF' ou 'HALT'"
  | oneOf words => " ou ".intercalate (words.map enclosed)
  | expressionEnd => "fim da expressão"

end Expectation

/-- Why a list of tokens could not be read. -/
inductive ParseError
  /-- Another token was expected than the one found, or than the end of the tokens. -/
  | unexpected (expected : Expectation) (found : Option Token)
  /-- The given operator would be the second one of its expression. -/
  | secondOperator (found : Token)
  /-- A number is too long. -/
  | numeral (error : NumeralError)
  /-- A statement was asked for where no language says what statements are. -/
  | noStatements
deriving DecidableEq, Repr

namespace ParseError

/-- The place of a token in messages. -/
def place : Option Token → String
  | some t => "Linha " ++ Numeral.text t.line ++ ":" ++ Numeral.text t.column
  | none => "Linha ?:?"

/-- The message for tokens that could not be read. -/
def message : ParseError → String
  | unexpected expected found =>
    place found ++ " - Esperado " ++ expected.text ++ ", encontrado " ++ Token.describe found
  | secondOperator found =>
    place (some found) ++
      " - Expressão muito complexa: apenas uma operação é permitida por expressão. " ++
      "Use variáveis intermediárias para expressões complexas."
  | numeral e => e.message
  | noStatements => ""

/-- What was expected and what was found, if the error is about a token. -/
def mismatch? : ParseError → Option (Expectation × Option Token)
  | unexpected expected found => some (expected, found)
  | secondOperator found => some (.expressionEnd, some found)
  | numeral _ | noStatements => none

end ParseError

namespace Parser

/-- Where reading stopped, and why. -/
structure Stop where
  error : ParseError
  rest : List Token
deriving DecidableEq, Repr

/-- What was read from the head of `ts`: a value, and the tokens left, which are fewer than those of
`ts` by `n` or more. -/
structure Reading (n : Nat) (ts : List Token) (α : Type) where
  value : α
  rest : List Token
  taken : rest.length + n ≤ ts.length

/-- Whether no token is left, the mark of the end of the text not counted. -/
def atEnd : List Token → Bool
  | [] => true
  | t :: _ => t.kind = .endOfText

/-- Whether the next token has the given kind and, if a text is asked for, that text. -/
def check (kind : TokenKind) (text : Option String) : List Token → Bool
  | [] => false
  | t :: _ => t.isOf kind text

/-- Whether the next token is the given keyword. -/
def checkWord (word : String) (ts : List Token) : Bool :=
  check .keyword (some word) ts

/-- Stops at the next token, where something else was expected. -/
def refuse {α : Type} (expected : Expectation) (ts : List Token) : Except Stop α :=
  .error ⟨.unexpected expected ts.head?, ts⟩

/-- Reads one token of the given kind and, if a text is asked for, with that text. -/
def expect (kind : TokenKind) (text : Option String) (ts : List Token) :
    Except Stop (Reading 1 ts Token) :=
  match ts with
  | t :: rest =>
    if t.isOf kind text then .ok ⟨t, rest, Nat.le_refl _⟩
    else refuse (text.elim (.kind kind) .word) (t :: rest)
  | [] => refuse (text.elim (.kind kind) .word) []

/-- Reads the given keyword. -/
def expectWord (word : String) (ts : List Token) : Except Stop (Reading 1 ts Token) :=
  expect .keyword (some word) ts

/-- Reads an operand. -/
def operand (ts : List Token) : Except Stop (Reading 1 ts Expr) :=
  match ts with
  | t :: rest =>
    match t.kind with
    | .number =>
      match Numeral.read t.text.toList with
      | .ok n => .ok ⟨.num n, rest, Nat.le_refl _⟩
      | .error e => .error ⟨.numeral e, rest⟩
    | .identifier => .ok ⟨.var t.text, rest, Nat.le_refl _⟩
    | _ => refuse .operand (t :: rest)
  | [] => refuse .operand []

/-- Stops if an operator comes next. -/
def noOperator (ts : List Token) : Except Stop Unit :=
  match ts with
  | t :: rest => if t.kind = .operator then .error ⟨.secondOperator t, t :: rest⟩ else .ok ()
  | [] => .ok ()

/-- Reads an expression. -/
def expression (ts : List Token) : Except Stop (Reading 1 ts Expr) := do
  let left ← operand ts
  if check .operator none left.rest then
    let op ← expect .operator none left.rest
    let right ← operand op.rest
    noOperator right.rest
    return ⟨.binary left.value op.value.text right.value, right.rest, by
      have := left.taken; have := op.taken; have := right.taken; omega⟩
  else return left

/-- Reads a condition. -/
def condition (ts : List Token) : Except Stop (Reading 1 ts Condition) := do
  let left ← expression ts
  let op ← expect .comparison none left.rest
  let right ← expression op.rest
  return ⟨⟨left.value, op.value.text, right.value⟩, right.rest, by
    have := left.taken; have := op.taken; have := right.taken; omega⟩

/-- Reads an assignment. -/
def assignment (ts : List Token) : Except Stop (Reading 1 ts Stmt) := do
  let target ← expect .identifier none ts
  let sign ← expect .assign none target.rest
  let value ← expression sign.rest
  let closing ← expect .semicolon none value.rest
  return ⟨.assign target.value.text value.value, closing.rest, by
    have := target.taken; have := sign.taken; have := value.taken; have := closing.taken; omega⟩

/-- Reads the label of a jump and the semicolon after it. -/
def jump (ts : List Token) : Except Stop (Reading 1 ts String) := do
  let target ← expect .identifier none ts
  let closing ← expect .semicolon none target.rest
  return ⟨target.value.text, closing.rest, by
    have := target.taken; have := closing.taken; omega⟩

/-- Reads the given keyword if it comes next. -/
def optionalWord (word : String) (ts : List Token) : Reading 0 ts Bool :=
  match ts with
  | t :: rest =>
    if t.isOf .keyword (some word) then ⟨true, rest, Nat.le_succ _⟩
    else ⟨false, t :: rest, Nat.le_refl _⟩
  | [] => ⟨false, [], Nat.le_refl _⟩

/-- Reads a statement of the GOTO language. -/
def gotoStatement (ts : List Token) : Except Stop (Reading 1 ts Stmt) :=
  if check .identifier none ts then assignment ts
  else if checkWord "GOTO" ts then do
    let opening ← expectWord "GOTO" ts
    let target ← jump opening.rest
    return ⟨.goto target.value, target.rest, by
      have := opening.taken; have := target.taken; omega⟩
  else if checkWord "IF" ts then do
    let opening ← expectWord "IF" ts
    let test ← condition opening.rest
    let filler := optionalWord "THEN" test.rest
    let goto ← expectWord "GOTO" filler.rest
    let target ← jump goto.rest
    return ⟨.ifGoto test.value target.value, target.rest, by
      have := opening.taken; have := test.taken; have := filler.taken
      have := goto.taken; have := target.taken; omega⟩
  else if checkWord "HALT" ts then do
    let opening ← expectWord "HALT" ts
    let closing ← expect .semicolon none opening.rest
    return ⟨.halt, closing.rest, by have := opening.taken; have := closing.taken; omega⟩
  else refuse (.statement .goto) ts

/-- What ends a list of statements. -/
inductive BlockEnd
  /-- The end of the text. -/
  | text
  /-- One of the given keywords, which is not read. -/
  | words (words : List String)
deriving DecidableEq, Repr

namespace BlockEnd

/-- Whether a list of statements ends here.  The end of the text is an error if a keyword is
missing. -/
def reached (e : BlockEnd) (ts : List Token) : Except Stop Bool :=
  match e with
  | text => .ok (atEnd ts)
  | words ws =>
    if ws.any fun w => checkWord w ts then .ok true
    else if atEnd ts then refuse (.oneOf ws) ts
    else .ok false

end BlockEnd

mutual

/-- Reads a statement of the given language.  Without a language there are no statements. -/
def statement (language : Option Language) (ts : List Token) : Except Stop (Reading 1 ts Stmt) :=
  match language with
  | none => .error ⟨.noStatements, ts⟩
  | some .goto => gotoStatement ts
  | some .loop =>
    if checkWord "LOOP" ts then do
      let opening ← expectWord "LOOP" ts
      let counter ← expect .identifier none opening.rest
      let doWord ← expectWord "DO" counter.rest
      have shorter : doWord.rest.length < ts.length := by
        have := opening.taken; have := counter.taken; have := doWord.taken; omega
      let body ← block (some .loop) (.words ["END"]) doWord.rest
      let closing ← expectWord "END" body.rest
      return ⟨.loop counter.value.text body.value, closing.rest, by
        have := body.taken; have := closing.taken; omega⟩
    else if check .identifier none ts then assignment ts
    else refuse (.statement .loop) ts
  | some .whileDo =>
    if checkWord "WHILE" ts then do
      let opening ← expectWord "WHILE" ts
      let test ← condition opening.rest
      let doWord ← expectWord "DO" test.rest
      have shorter : doWord.rest.length < ts.length := by
        have := opening.taken; have := test.taken; have := doWord.taken; omega
      let body ← block (some .whileDo) (.words ["END"]) doWord.rest
      let closing ← expectWord "END" body.rest
      return ⟨.whileDo test.value body.value, closing.rest, by
        have := body.taken; have := closing.taken; omega⟩
    else if checkWord "IF" ts then do
      let opening ← expectWord "IF" ts
      let test ← condition opening.rest
      let thenWord ← expectWord "THEN" test.rest
      have shorter : thenWord.rest.length < ts.length := by
        have := opening.taken; have := test.taken; have := thenWord.taken; omega
      let thenBody ← block (some .whileDo) (.words ["ELSE", "END"]) thenWord.rest
      if checkWord "ELSE" thenBody.rest then
        let elseWord ← expectWord "ELSE" thenBody.rest
        have shorter : elseWord.rest.length < ts.length := by
          have := thenBody.taken; have := elseWord.taken; omega
        let elseBody ← block (some .whileDo) (.words ["END"]) elseWord.rest
        let closing ← expectWord "END" elseBody.rest
        return ⟨.ifThen test.value thenBody.value (some elseBody.value), closing.rest, by
          have := elseBody.taken; have := closing.taken; omega⟩
      else
        let closing ← expectWord "END" thenBody.rest
        return ⟨.ifThen test.value thenBody.value none, closing.rest, by
          have := thenBody.taken; have := closing.taken; omega⟩
    else if check .identifier none ts then assignment ts
    else refuse (.statement .whileDo) ts
termination_by 2 * ts.length

/-- Reads the statements before the end of a block. -/
def block (language : Option Language) (blockEnd : BlockEnd) (ts : List Token) :
    Except Stop (Reading 0 ts (List Stmt)) := do
  if ← blockEnd.reached ts then return ⟨[], ts, Nat.le_refl _⟩
  else
    let first ← statement language ts
    have shorter : first.rest.length < ts.length := by have := first.taken; omega
    let others ← block language blockEnd first.rest
    return ⟨first.value :: others.value, others.rest, by have := others.taken; omega⟩
termination_by 2 * ts.length + 1

end

/-- Reads a label and its colon if they come next. -/
def label (ts : List Token) : Reading 0 ts (Option String) :=
  match ts with
  | l :: colon :: rest =>
    if l.kind = .identifier ∧ colon.kind = .colon then ⟨some l.text, rest, by simp; omega⟩
    else ⟨none, l :: colon :: rest, Nat.le_refl _⟩
  | ts => ⟨none, ts, Nat.le_refl _⟩

/-- Reads an instruction. -/
def instruction (ts : List Token) : Except Stop (Reading 1 ts Instruction) := do
  let l := label ts
  let s ← statement (some .goto) l.rest
  return ⟨⟨s.value, l.value⟩, s.rest, by have := l.taken; have := s.taken; omega⟩

/-- Reads the instructions up to the end of the text. -/
def instructions (ts : List Token) : Except Stop (Reading 0 ts (List Instruction)) := do
  if atEnd ts then return ⟨[], ts, Nat.le_refl _⟩
  else
    let first ← instruction ts
    have shorter : first.rest.length < ts.length := by have := first.taken; omega
    let others ← instructions first.rest
    return ⟨first.value :: others.value, others.rest, by have := others.taken; omega⟩
termination_by ts.length

/-- Reads a program up to the end of the text. -/
def program (language : Language) (ts : List Token) : Except Stop (Reading 0 ts Program) :=
  match language with
  | .loop => do
    let ss ← block (some .loop) .text ts
    return ⟨.loop ss.value, ss.rest, ss.taken⟩
  | .whileDo => do
    let ss ← block (some .whileDo) .text ts
    return ⟨.whileDo ss.value, ss.rest, ss.taken⟩
  | .goto => do
    let is ← instructions ts
    return ⟨.goto is.value, is.rest, is.taken⟩

end Parser

/-! ### Whole texts -/

/-- Why a text could not be read as a program. -/
inductive SourceError
  | unknownLanguage (name : String)
  | lexical (error : LexicalError)
  | parse (error : ParseError)
deriving DecidableEq, Repr

/-- The message for a text that could not be read. -/
def SourceError.message : SourceError → String
  | unknownLanguage name => Language.unknownMessage name
  | lexical e => e.message
  | parse e => e.message

namespace Program

/-- The program that a list of tokens denotes. -/
def ofTokens (language : Language) (ts : List Token) : Except ParseError Program :=
  match Parser.program language ts with
  | .ok r => .ok r.value
  | .error s => .error s.error

/-- The program that a text denotes. -/
def parse (language : Language) (text : String) : Except SourceError Program :=
  match Token.ofText text with
  | .error e => .error (.lexical e)
  | .ok ts => (ofTokens language ts).mapError .parse

/-- The program that a text denotes in the language of the given name. -/
def parseNamed (language text : String) : Except SourceError Program :=
  match Language.ofName? language with
  | none => .error (.unknownLanguage language)
  | some l => parse l text

end Program

end CounterPrograms
