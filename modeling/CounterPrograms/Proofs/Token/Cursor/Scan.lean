import CounterPrograms.Proofs.Token.Cursor
import CounterPrograms.Proofs.Token.Cutting

/-!
# Tokens taken by a cursor

A cursor takes tokens by steps of one character, where a scan cuts its text into lexemes.  Both find
the same tokens, or the same error, and stop at the same place (`Cursor.IsCurrent.tokens_eq`), so
what is known of scans is known of cursors, wherever they stand in a text
(`Cursor.Consistent.tokens_eq`).
-/

namespace CounterPrograms

namespace Token

/-- What a scan gives to those who ask for all tokens: the tokens, or the error that stopped it. -/
def Scan.result (s : Scan) : Except LexicalError (List Token) :=
  match s.error with
  | none => .ok s.tokens
  | some e => .error e

theorem Scan.result_cons (t : Token) (s : Scan) :
    Scan.result { s with tokens := t :: s.tokens } = s.result.map (t :: ·) := by
  unfold result
  dsimp only
  split <;> rfl

end Token

namespace Cursor

section token

variable {k : Cursor} {c : Char} {tail : List Char}

theorem peek?_one (hrest : k.rest = c :: tail) : k.peek? 1 = tail.head? := by
  have hpeek : k.peek? 1 = k.text[k.position.offset + 1]? := rfl
  have hdrop : k.rest.tail = tail := by rw [hrest, List.tail_cons]
  rw [hpeek, ← hdrop, rest, List.tail_drop, List.head?_drop]

theorem IsCurrent.take_eq {p : Char → Bool} (h : k.IsCurrent) (hrest : k.rest = c :: tail)
    (hc : p c = true) :
    (k.textTo (k.advanceWhile p), k.advanceWhile p) =
      (String.ofList (c :: tail.takeWhile p), k.past (c :: tail.takeWhile p)) := by
  have hrun : k.advanceWhile p = k.past (c :: tail.takeWhile p) := by
    rw [h.advanceWhile_eq, hrest, List.takeWhile_cons_of_pos hc]
  have hsplit : k.rest = (c :: tail.takeWhile p) ++ tail.dropWhile p := by
    rw [hrest, List.cons_append, List.takeWhile_append_dropWhile]
  rw [hrun, textTo_past hsplit]

/-- The token at a cursor is the longest lexeme at the head of the characters from there on. -/
theorem IsCurrent.token?_eq (h : k.IsCurrent) (hrest : k.rest = c :: tail) :
    k.token? c = (Token.lexeme? c tail).map fun (kind, more) =>
      (k.token kind (String.ofList (c :: tail.take more)), k.past (c :: tail.take more)) := by
  have htake : ∀ p : Char → Bool, tail.take (tail.takeWhile p).length = tail.takeWhile p :=
    fun p => (List.prefix_iff_eq_take.mp (List.takeWhile_prefix p)).symm
  unfold token? Token.lexeme?
  split
  · next halpha =>
      have hword : k.word = _ := h.take_eq hrest (Token.isAlphanum_of_isAlpha halpha)
      simp only [hword, Option.map_some, htake]
  · split
    · next hdigit =>
        have hnumber : k.number = _ := h.take_eq hrest hdigit
        simp only [hnumber, Option.map_some, htake]
    -- A sign depends on `c` and on whether an equals sign comes next, in `token?` as in `lexeme?`.
    · have hone : k.advance = k.past [c] := h.advance_eq hrest
      rw [peek?_one hrest]
      by_cases heq : tail.head? = some '='
      · obtain ⟨tail, rfl⟩ := List.head?_eq_some_iff.mp heq
        have hrest' : (k.past [c]).rest = '=' :: tail := rest_past hrest
        have htwo : k.advance.advance = k.past [c, '='] := by
          rw [hone, isCurrent_past.advance_eq hrest', past_past]
          rfl
        rw [htwo, hone]
        simp only [List.head?_cons]
        grind
      · have hpair : ∀ d, c :: tail.head?.toList ≠ [d, '='] := by
          intro d hd
          obtain ⟨_, hd⟩ := List.cons.inj hd
          cases htail : tail.head? with
          | none => simp [htail] at hd
          | some e => exact heq (by simpa [htail] using hd)
        simp only [hone]
        grind

end token

/-! ### All tokens -/

/-- A cursor takes the tokens that a scan finds in the characters from there on, and stops where the
scan does. -/
theorem IsCurrent.tokens_eq {k : Cursor} (h : k.IsCurrent) :
    k.tokens = ((Token.scan k.rest k.position).result,
      k.movedTo (Token.scan k.rest k.position).stop) := by
  fun_induction tokens k with
  | case1 k hc =>
      have hrest : k.rest = [] := List.head?_eq_none_iff.mp (h.symm.trans hc)
      rw [hrest, Token.scan, h.movedTo_position]
      rfl
  | case2 k c hc hblank ih =>
      obtain ⟨run, tail, hrest, htake, hall, _⟩ := exists_run isBlank k.rest
      have hskip : k.skipBlanks = k.past run := by rw [skipBlanks, h.advanceWhile_eq, htake]
      rw [hskip] at ih ⊢
      rw [ih isCurrent_past, rest_past hrest, hrest, Token.scan_blanks hall]
      rfl
  | case3 k c hc hblank htoken =>
      obtain ⟨tail, hrest⟩ := List.head?_eq_some_iff.mp (h.symm.trans hc)
      rw [h.token?_eq hrest, Option.map_eq_none_iff] at htoken
      rw [hrest, Token.scan, if_neg hblank, htoken, h.movedTo_position]
      rfl
  | case4 k c hc hblank t next htoken ts stop htokens ih =>
      obtain ⟨tail, hrest⟩ := List.head?_eq_some_iff.mp (h.symm.trans hc)
      rw [h.token?_eq hrest, Option.map_eq_some_iff] at htoken
      obtain ⟨⟨kind, more⟩, hlex, hnext⟩ := htoken
      obtain ⟨rfl, rfl⟩ := Prod.mk.inj hnext
      have hsplit : k.rest = (c :: tail.take more) ++ tail.drop more := by
        rw [hrest, List.cons_append, List.take_append_drop]
      rw [ih isCurrent_past, rest_past hsplit] at htokens
      obtain ⟨rfl, rfl⟩ := Prod.mk.inj htokens
      rw [hrest, Token.scan, if_neg hblank, hlex]
      dsimp only
      rw [Token.Scan.result_cons]
      rfl

/-- Taking all tokens from the beginning is tokenizing. -/
theorem tokens_ofText (text : String) : (ofText text).tokens.1 = Token.ofText text := by
  rw [(consistent_ofText text).isCurrent.tokens_eq]
  rfl

/-- The tokens from a cursor in the middle of a text are those of a scan that knows the characters
before, as do the places of the tokens and of the error. -/
theorem Consistent.tokens_eq {text : List Char} {k : Cursor} (h : k.Consistent text)
    (hle : k.position.offset ≤ text.length) :
    k.tokens.1 = (Token.scan (text.drop k.position.offset)
      (.behind (text.take k.position.offset))).result := by
  rw [h.isCurrent.tokens_eq, ← h.isIn.eq_behind hle, rest, h.text_eq]

end Cursor

end CounterPrograms
