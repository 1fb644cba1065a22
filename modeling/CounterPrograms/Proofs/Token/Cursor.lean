import CounterPrograms.Proofs.Position
import CounterPrograms.Proofs.Token.Spelling
import CounterPrograms.Token.Cursor

/-!
# What a cursor holds

A cursor holds a character, an offset, a line and a column, and every operation changes them on its
way.  They belong together whatever has been called before, also beyond the end of the text and
after an error (`Cursor.consistent_afterAll`).

The reason is that every operation moves by steps of one character (`Cursor.Reaches.after`) and that
such a step keeps what the cursor holds consistent (`Cursor.Consistent.advance`).  How far a loop
moves is then said by the text (`Cursor.IsCurrent.advanceWhile_eq`), from which it follows that it
takes a run whole (`Cursor.Consistent.isRun`).
-/

namespace CounterPrograms

namespace Cursor

/-- The cursor is on the text, holds the character at its offset, or none if no character is there,
and has the line and the column of its offset. -/
structure Consistent (text : List Char) (k : Cursor) : Prop where
  text_eq : k.text = text
  current_eq : k.current? = text[k.position.offset]?
  isIn : k.position.IsIn text

/-- A call of an operation. -/
inductive Call
  | advance
  | skipBlanks
  | number
  | word
  | peek (n : Int)
  | tokens
deriving DecidableEq, Repr

/-- The cursor that a call leaves, with or without an error. -/
def after (k : Cursor) : Call → Cursor
  | .advance => k.advance
  | .skipBlanks => k.skipBlanks
  | .number => k.number.2
  | .word => k.word.2
  | .peek _ => k
  | .tokens => k.tokens.2

/-- The cursor that calls leave, one after the other. -/
def afterAll (k : Cursor) (calls : List Call) : Cursor :=
  calls.foldl after k

/-- The text `s` is the longest run from `k` on of characters of which `p` holds, and it is what
`text` has from the offset of `k` to that of `stop`. -/
structure IsRun (text : List Char) (p : Char → Bool) (k stop : Cursor) (s : String) : Prop where
  toList_eq : s.toList = text.extract k.position.offset stop.position.offset
  all : ∀ c ∈ s.toList, p c = true
  longest : ∀ c ∈ stop.current?, p c = false

/-! ### Steps of one character -/

/-- The cursor `stop` is where `k` comes to by steps of one character. -/
inductive Reaches : Cursor → Cursor → Prop
  | refl (k : Cursor) : Reaches k k
  | step {k stop : Cursor} : Reaches k.advance stop → Reaches k stop

namespace Reaches

variable {k next stop : Cursor}

theorem trans (h : Reaches k next) (h' : Reaches next stop) : Reaches k stop := by
  induction h with
  | refl k => exact h'
  | step _ ih => exact .step (ih h')

theorem advance (k : Cursor) : Reaches k k.advance :=
  .step (.refl _)

theorem offset_le (h : Reaches k stop) : k.position.offset ≤ stop.position.offset := by
  induction h with
  | refl k => exact Nat.le_refl _
  | step _ ih =>
      rw [offset_advance] at ih
      exact Nat.le_of_succ_le ih

theorem advanceWhile (p : Char → Bool) (k : Cursor) : Reaches k (k.advanceWhile p) := by
  fun_induction Cursor.advanceWhile p k with
  | case1 k c hc hp ih => exact .step ih
  | case2 k c hc hp => exact .refl k
  | case3 k hc => exact .refl k

theorem token? {c : Char} {t : Token} (h : k.token? c = some (t, stop)) : Reaches k stop := by
  rcases stop_of_token? h with ⟨p, _, rfl⟩ | rfl | rfl
  · exact advanceWhile p k
  · exact advance k
  · exact (advance k).trans (advance k.advance)

theorem tokens (k : Cursor) : Reaches k k.tokens.2 := by
  fun_induction Cursor.tokens k with
  | case1 k hc => exact .refl k
  | case2 k c hc hblank ih => exact (advanceWhile isBlank k).trans ih
  | case3 k c hc hblank htoken => exact .refl k
  | case4 k c hc hblank t next htoken ts stop htokens ih =>
      rw [htokens] at ih
      exact (token? htoken).trans ih

theorem after (k : Cursor) (call : Call) : Reaches k (k.after call) := by
  cases call with
  | advance => exact advance k
  | skipBlanks => exact advanceWhile isBlank k
  | number => exact advanceWhile Char.isDigit k
  | word => exact advanceWhile Char.isAlphanum k
  | peek n => exact .refl k
  | tokens => exact tokens k

theorem afterAll (k : Cursor) (calls : List Call) : Reaches k (k.afterAll calls) := by
  induction calls generalizing k with
  | nil => exact .refl k
  | cons call calls ih => exact (after k call).trans (ih (k.after call))

end Reaches

/-! ### Consistent cursors -/

theorem consistent_ofText (text : String) : (ofText text).Consistent text.toList where
  text_eq := rfl
  current_eq := List.head?_eq_getElem?
  isIn := Position.isIn_start _

namespace Consistent

variable {text : List Char} {k stop : Cursor}

/-- A step keeps what the cursor holds consistent, within the text and beyond it. -/
theorem advance (h : k.Consistent text) : k.advance.Consistent text where
  text_eq := h.text_eq
  current_eq := by
    rw [current_advance, offset_advance, h.text_eq]
  isIn := by
    have hcurrent := h.current_eq
    unfold Cursor.advance
    split
    · next c hc => exact h.isIn.after (hcurrent.symm.trans hc)
    · next hc => exact h.isIn.beyond (hcurrent.symm.trans hc)

theorem of_reaches (h : k.Consistent text) (hstop : Reaches k stop) : stop.Consistent text := by
  induction hstop with
  | refl k => exact h
  | step _ ih => exact ih h.advance

end Consistent

/-! ### Runs of characters -/

/-- The characters from the cursor on. -/
def rest (k : Cursor) : List Char :=
  k.text.drop k.position.offset

/-- The cursor at another position of its text. -/
def movedTo (k : Cursor) (p : Position) : Cursor :=
  ⟨k.text, p, k.text[p.offset]?⟩

/-- The cursor behind the characters `run`. -/
def past (k : Cursor) (run : List Char) : Cursor :=
  k.movedTo (k.position.afterAll run)

/-- The cursor holds the first of the characters from its offset on. -/
def IsCurrent (k : Cursor) : Prop :=
  k.current? = k.rest.head?

theorem isCurrent_iff {k : Cursor} : k.IsCurrent ↔ k.current? = k.text[k.position.offset]? := by
  rw [IsCurrent, rest, List.head?_drop]

theorem isCurrent_movedTo (k : Cursor) (p : Position) : (k.movedTo p).IsCurrent :=
  isCurrent_iff.mpr rfl

theorem IsCurrent.movedTo_position {k : Cursor} (h : k.IsCurrent) : k.movedTo k.position = k := by
  rw [movedTo, ← isCurrent_iff.mp h]

theorem Consistent.isCurrent {text : List Char} {k : Cursor} (h : k.Consistent text) :
    k.IsCurrent := by
  rw [isCurrent_iff, h.current_eq, h.text_eq]

section past

variable {k : Cursor} {run tail : List Char}

theorem isCurrent_past : (k.past run).IsCurrent :=
  isCurrent_movedTo _ _

theorem IsCurrent.past_nil (h : k.IsCurrent) : k.past [] = k :=
  h.movedTo_position

theorem past_past (k : Cursor) (run run' : List Char) :
    (k.past run).past run' = k.past (run ++ run') := by
  simp [past, movedTo, Position.afterAll_append]

theorem rest_past (h : k.rest = run ++ tail) : (k.past run).rest = tail := by
  have hdrop : (k.past run).rest = k.rest.drop run.length := by
    simp [rest, past, movedTo]
  rw [hdrop, h, List.drop_left]

/-- A step passes the first of the characters from the cursor on. -/
theorem IsCurrent.advance_eq {c : Char} (h : k.IsCurrent) (hrest : k.rest = c :: tail) :
    k.advance = k.past [c] := by
  have hc : k.current? = some c := by rw [h, hrest, List.head?_cons]
  simp [advance, past, movedTo, hc]

theorem textTo_past (h : k.rest = run ++ tail) : k.textTo (k.past run) = String.ofList run := by
  have hoffset : (k.past run).position.offset - k.position.offset = run.length := by
    simp [past, movedTo]
  have hrest : k.text.drop k.position.offset = run ++ tail := h
  rw [textTo, List.extract_eq_take_drop, hoffset, hrest, List.take_left]

/-- A loop passes the longest run of characters of which `p` holds. -/
theorem IsCurrent.advanceWhile_eq (h : k.IsCurrent) (p : Char → Bool) :
    k.advanceWhile p = k.past (k.rest.takeWhile p) := by
  induction hrest : k.rest generalizing k with
  | nil =>
      have hc : k.current? = none := by rw [h, hrest, List.head?_nil]
      rw [advanceWhile_of_none hc, List.takeWhile_nil, h.past_nil]
  | cons c tail ih =>
      have hc : k.current? = some c := by rw [h, hrest, List.head?_cons]
      rw [advanceWhile_of_some hc, List.takeWhile_cons]
      split
      · rw [h.advance_eq hrest, ih isCurrent_past (rest_past hrest), past_past]
        rfl
      · rw [h.past_nil]

end past

theorem Consistent.isRun {text : List Char} {k : Cursor} (h : k.Consistent text)
    (p : Char → Bool) :
    IsRun text p k (k.advanceWhile p) (k.textTo (k.advanceWhile p)) := by
  obtain ⟨run, tail, hrest, htake, hall, hstop⟩ := exists_run p k.rest
  have hpast : k.advanceWhile p = k.past run := by rw [h.isCurrent.advanceWhile_eq, htake]
  constructor
  · rw [textTo, String.toList_ofList, h.text_eq]
  · rw [hpast, textTo_past hrest, String.toList_ofList]
    exact hall
  · rw [hpast, isCurrent_past, rest_past hrest]
    exact hstop

/-- Whatever has been called before on a text, the cursor is consistent, no calls move it backwards,
and the digits or letters that it takes next are those from the old offset to the new. -/
theorem consistent_afterAll (text : String) (calls more : List Call) :
    let k := (ofText text).afterAll calls
    k.Consistent text.toList ∧
      k.position.offset ≤ (k.afterAll more).position.offset ∧
      IsRun text.toList Char.isDigit k k.number.2 k.number.1 ∧
      IsRun text.toList Char.isAlphanum k k.word.2 k.word.1 := by
  intro k
  have hk : k.Consistent text.toList := (consistent_ofText text).of_reaches (.afterAll _ calls)
  exact ⟨hk, (Reaches.afterAll k more).offset_le, hk.isRun Char.isDigit, hk.isRun Char.isAlphanum⟩

example : (ofText "ab\n c").afterAll [.word, .skipBlanks, .tokens, .advance, .peek 3, .number] =
    ⟨"ab\n c".toList, ⟨6, 2, 4⟩, none⟩ := by decide +kernel

end Cursor

end CounterPrograms
