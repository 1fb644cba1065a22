import CounterPrograms.Token.Lexer

/-!
# A cursor on a text

Reading a text by hand: a cursor stands at a position, holds the character there, and moves forward
one character, one run of blanks, digits or letters, or to the end of a scan at a time.  It may move
beyond the end, where every step still counts as one column.

All operations move by `advance` alone.  Loops ask for the character that the cursor holds, not for
its text, so how long one runs is bounded by `left`, which counts both.
-/

namespace CounterPrograms

/-- A text, a position in it or behind it, and the character at the position. -/
structure Cursor where
  text : List Char
  position : Position
  current? : Option Char
deriving DecidableEq, Repr

namespace Cursor

/-- The cursor at the beginning of a text. -/
def ofText (text : String) : Cursor :=
  ⟨text.toList, .start, text.toList.head?⟩

/-- The character `n` places after the cursor, if the text goes as far.  Places before the beginning
are counted back from the end of the text.  A place still further back, by more than the length of
the text, is an index out of range; that fault is not told apart from the end of the text here, and
gives no character either. -/
def peek? (k : Cursor) (n : Int) : Option Char :=
  match k.position.offset + n with
  | .ofNat i => k.text[i]?
  | .negSucc i => k.text.reverse[i]?

/-- Moves behind the current character, or one column further if there is none. -/
def advance (k : Cursor) : Cursor :=
  let position :=
    match k.current? with
    | some c => k.position.after c
    | none => k.position.beyond
  ⟨k.text, position, k.text[position.offset]?⟩

/-- How many steps a loop can make from the cursor: one for the current character, and one for each
character from the position on. -/
def left (k : Cursor) : Nat :=
  k.current?.toList.length + (k.text.length - k.position.offset)

@[simp]
theorem text_advance (k : Cursor) : k.advance.text = k.text := rfl

@[simp]
theorem offset_advance (k : Cursor) : k.advance.position.offset = k.position.offset + 1 := by
  unfold advance
  cases k.current? <;> simp [Position.beyond]

theorem current_advance (k : Cursor) :
    k.advance.current? = k.text[k.position.offset + 1]? := by
  rw [← offset_advance]
  rfl

/-- A step uses up the current character, if there is one, and holds the next. -/
theorem left_advance_le_sub (k : Cursor) :
    k.advance.left ≤ k.text.length - k.position.offset := by
  rw [left, text_advance, offset_advance, current_advance]
  rcases Nat.lt_or_ge (k.position.offset + 1) k.text.length with h | h
  · rw [List.getElem?_eq_getElem h, Option.toList_some, List.length_singleton]
    omega
  · rw [List.getElem?_eq_none h, Option.toList_none, List.length_nil]
    omega

theorem left_advance_le (k : Cursor) : k.advance.left ≤ k.left :=
  Nat.le_trans k.left_advance_le_sub (Nat.le_add_left _ _)

theorem left_advance_lt {k : Cursor} {c : Char} (hc : k.current? = some c) :
    k.advance.left < k.left := by
  have hleft : k.left = 1 + (k.text.length - k.position.offset) := by
    rw [left, hc, Option.toList_some, List.length_singleton]
  have hle := k.left_advance_le_sub
  omega

/-! ### Runs of characters -/

/-- Moves forward while `p` holds of the current character. -/
def advanceWhile (p : Char → Bool) (k : Cursor) : Cursor :=
  match _ : k.current? with
  | some c => if p c then k.advance.advanceWhile p else k
  | none => k
termination_by k.left
decreasing_by exact left_advance_lt ‹_›

theorem advanceWhile_of_none {k : Cursor} (hc : k.current? = none) (p : Char → Bool) :
    k.advanceWhile p = k := by
  rw [advanceWhile]
  split
  · next d hd => cases hd.symm.trans hc
  · rfl

theorem advanceWhile_of_some {k : Cursor} {c : Char} (hc : k.current? = some c)
    (p : Char → Bool) :
    k.advanceWhile p = if p c then k.advance.advanceWhile p else k := by
  rw [advanceWhile]
  split
  · next d hd =>
      obtain rfl := Option.some.inj (hc.symm.trans hd)
      rfl
  · next hd => cases hc.symm.trans hd

theorem left_advanceWhile_le (p : Char → Bool) (k : Cursor) :
    (k.advanceWhile p).left ≤ k.left := by
  fun_induction advanceWhile p k with
  | case1 k c hc hp ih => exact Nat.le_trans ih k.left_advance_le
  | case2 k c hc hp => exact Nat.le_refl _
  | case3 k hc => exact Nat.le_refl _

theorem left_advanceWhile_lt {p : Char → Bool} {k : Cursor} {c : Char} (hc : k.current? = some c)
    (hp : p c = true) : (k.advanceWhile p).left < k.left := by
  rw [advanceWhile_of_some hc, if_pos hp]
  exact Nat.lt_of_le_of_lt (left_advanceWhile_le p _) (left_advance_lt hc)

/-- The text from the cursor to a later one. -/
def textTo (k stop : Cursor) : String :=
  String.ofList (k.text.extract k.position.offset stop.position.offset)

/-- Moves behind the blanks at the cursor. -/
def skipBlanks (k : Cursor) : Cursor :=
  k.advanceWhile isBlank

/-- Takes the digits at the cursor. -/
def number (k : Cursor) : String × Cursor :=
  let stop := k.advanceWhile Char.isDigit
  (k.textTo stop, stop)

/-- Takes the letters and digits at the cursor. -/
def word (k : Cursor) : String × Cursor :=
  let stop := k.advanceWhile Char.isAlphanum
  (k.textTo stop, stop)

/-! ### Tokens -/

/-- A token at the cursor. -/
def token (k : Cursor) (kind : TokenKind) (text : String) : Token :=
  ⟨kind, text, k.position.line, k.position.column⟩

/-- Takes the token that begins with the current character `c`, if one does.  Signs of two
characters take precedence over signs of one. -/
def token? (k : Cursor) (c : Char) : Option (Token × Cursor) :=
  if c.isAlpha then
    let (text, stop) := k.word
    some (k.token (Token.kindOfWord text) text, stop)
  else if c.isDigit then
    let (text, stop) := k.number
    some (k.token .number text, stop)
  else
    let pair := c :: (k.peek? 1).toList
    if pair = [':', '='] then some (k.token .assign (String.ofList pair), k.advance.advance)
    else if pair ∈ [['!', '='], ['<', '='], ['>', '=']] then
      some (k.token .comparison (String.ofList pair), k.advance.advance)
    else if c ∈ ['=', '<', '>'] then some (k.token .comparison (String.ofList [c]), k.advance)
    else if c ∈ ['+', '-'] then some (k.token .operator (String.ofList [c]), k.advance)
    else if c = ':' then some (k.token .colon (String.ofList [c]), k.advance)
    else if c = ';' then some (k.token .semicolon (String.ofList [c]), k.advance)
    else none

/-- Where the cursor stops behind a token: at the end of a run that begins with `c`, or one or two
steps further. -/
theorem stop_of_token? {k stop : Cursor} {c : Char} {t : Token}
    (h : k.token? c = some (t, stop)) :
    (∃ p, p c = true ∧ stop = k.advanceWhile p) ∨ stop = k.advance ∨ stop = k.advance.advance := by
  unfold token? at h
  split at h
  · next halpha =>
      cases h
      exact .inl ⟨Char.isAlphanum, by simp [Char.isAlphanum, halpha], rfl⟩
  · split at h
    · next hdigit =>
        cases h
        exact .inl ⟨Char.isDigit, hdigit, rfl⟩
    · dsimp only at h
      repeat' split at h
      all_goals cases h
      all_goals simp

theorem left_of_token? {k stop : Cursor} {c : Char} {t : Token} (hc : k.current? = some c)
    (h : k.token? c = some (t, stop)) : stop.left < k.left := by
  rcases stop_of_token? h with ⟨p, hp, rfl⟩ | rfl | rfl
  · exact left_advanceWhile_lt hc hp
  · exact left_advance_lt hc
  · exact Nat.lt_of_le_of_lt (left_advance_le _) (left_advance_lt hc)

/-- Takes all tokens from the cursor on.  An error leaves the cursor at the character that caused
it. -/
def tokens (k : Cursor) : Except LexicalError (List Token) × Cursor :=
  match _ : k.current? with
  | none => (.ok [k.token .endOfText ""], k)
  | some c =>
    if _ : isBlank c then k.skipBlanks.tokens
    else
      match _ : k.token? c with
      | none => (.error ⟨c, k.position⟩, k)
      | some (t, next) =>
        let (ts, stop) := next.tokens
        (ts.map (t :: ·), stop)
termination_by k.left
decreasing_by
  · exact left_advanceWhile_lt ‹_› ‹_›
  · exact left_of_token? ‹_› ‹_›

end Cursor

end CounterPrograms
