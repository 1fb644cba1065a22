import CounterPrograms.Position
import CounterPrograms.Text.Blank
import CounterPrograms.Token.Basic

/-!
# From text to tokens

A text is cut into its longest lexemes from left to right.  Words are a letter with the letters and
digits after it, numbers are runs of digits, and `:=`, `!=`, `<=` and `>=` take precedence over
their first characters.  Letters and digits are those of ASCII.  Blanks separate and are skipped.

`lexeme?` finds the lexeme at the head of a text, `scan` repeats it and keeps track of positions.
The last token marks the end of the text; a character that begins no lexeme stops the scan.
-/

namespace CounterPrograms

/-- A character that begins no token, and where it stands. -/
structure LexicalError where
  char : Char
  position : Position
deriving DecidableEq, Repr

/-- The message for a character that begins no token. -/
def LexicalError.message (e : LexicalError) : String :=
  "Linha " ++ Numeral.text e.position.line ++ ":" ++ Numeral.text e.position.column ++
    " - Caractere inválido: '" ++ e.char.toString ++ "' (posição " ++
    Numeral.text e.position.offset ++ ")"

namespace Token

/-- The longest lexeme that begins with `c` in the text `c :: rest`: its kind and how many
characters of `rest` belong to it. -/
def lexeme? (c : Char) (rest : List Char) : Option (TokenKind × Nat) :=
  if c.isAlpha then
    let tail := rest.takeWhile Char.isAlphanum
    some (kindOfWord (String.ofList (c :: tail)), tail.length)
  else if c.isDigit then some (.number, (rest.takeWhile Char.isDigit).length)
  else
    let equals := rest.head? = some '='
    if c = ':' then some (if equals then (.assign, 1) else (.colon, 0))
    else if c = '<' ∨ c = '>' then some (.comparison, if equals then 1 else 0)
    else if c = '=' then some (.comparison, 0)
    else if c = '!' then if equals then some (.comparison, 1) else none
    else if c = '+' ∨ c = '-' then some (.operator, 0)
    else if c = ';' then some (.semicolon, 0)
    else none

/-- What a scan gives: the tokens, where it stopped, and the error that stopped it before the end of
the text. -/
structure Scan where
  tokens : List Token
  stop : Position
  error : Option LexicalError
deriving DecidableEq, Repr

/-- Scans the text that begins at position `p`. -/
def scan : List Char → Position → Scan
  | [], p => ⟨[⟨.endOfText, "", p.line, p.column⟩], p, none⟩
  | c :: rest, p =>
    if isBlank c then scan rest (p.after c)
    else
      match lexeme? c rest with
      | none => ⟨[], p, some ⟨c, p⟩⟩
      | some (kind, more) =>
        let text := c :: rest.take more
        let following := scan (rest.drop more) (p.afterAll text)
        { following with
          tokens := ⟨kind, String.ofList text, p.line, p.column⟩ :: following.tokens }
termination_by text => text.length

/-- The tokens of a text, or the character that begins none. -/
def ofText (text : String) : Except LexicalError (List Token) :=
  let s := scan text.toList .start
  match s.error with
  | none => .ok s.tokens
  | some e => .error e

end Token

end CounterPrograms
