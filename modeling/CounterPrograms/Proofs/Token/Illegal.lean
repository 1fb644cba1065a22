import CounterPrograms.Proofs.Position
import CounterPrograms.Proofs.Token.Spelling

/-!
# The character that stops a scan

Which characters are illegal can be said without tokens: those that are neither blank nor a letter
nor a digit nor part of a sign, and an exclamation mark without an equals sign behind it
(`Token.IsIllegal`).  A scan is stopped by the first of them and by nothing else
(`Token.stopsAtFirst_scan`), since no lexeme has one inside (`Token.not_isIllegal_of_isLexeme`) and
one begins wherever a legal character stands (`Token.lexeme?_eq_none_iff`).

`Token.ofText_eq_error_iff_isIllegal` says so of a whole text, with the place that the error names.
-/

namespace CounterPrograms

namespace Token

/-- The characters of which signs are made. -/
def signs : List Char := ['+', '-', ':', ';', '=', '<', '>', '!']

/-- Whether the character at the index `i` is one that no token has, or an exclamation mark without
an equals sign behind it. -/
def IsIllegal (text : List Char) (i : Nat) : Prop :=
  ∃ c, text[i]? = some c ∧
    (isBlank c = false ∧ c.isAlphanum = false ∧ c ∉ signs ∨ c = '!' ∧ text[i + 1]? ≠ some '=')

/-- The error of a scan, or `none` if it reaches the end of `text`: it names the first illegal
character and the place of that character behind the characters `done`. -/
def StopsAtFirst (done text : List Char) : Option LexicalError → Prop
  | none => ∀ i, ¬ IsIllegal text i
  | some e => ∃ i c, text[i]? = some c ∧ IsIllegal text i ∧ (∀ j < i, ¬ IsIllegal text j) ∧
      e = ⟨c, .behind (done ++ text.take i)⟩

/-! ### Illegal characters -/

theorem isIllegal_append_iff (read rest : List Char) (i : Nat) :
    IsIllegal (read ++ rest) (read.length + i) ↔ IsIllegal rest i := by
  simp [IsIllegal, List.getElem?_append_right, Nat.add_assoc]

theorem isIllegal_zero_iff {c : Char} {rest : List Char} :
    IsIllegal (c :: rest) 0 ↔
      isBlank c = false ∧ c.isAlphanum = false ∧ c ∉ signs ∨ c = '!' ∧ rest.head? ≠ some '=' := by
  simp [IsIllegal, List.head?_eq_getElem?]

theorem not_isIllegal_of_isAlphanum_or_equals {text : List Char} {i : Nat} {c : Char}
    (hi : text[i]? = some c) (hc : c.isAlphanum = true ∨ c = '=') : ¬ IsIllegal text i := by
  rintro ⟨d, hd, h⟩
  obtain rfl : c = d := Option.some.inj (hi.symm.trans hd)
  rcases h with ⟨_, halphanum, hsign⟩ | ⟨rfl, _⟩
  · rcases hc with hc | rfl
    · exact Bool.false_ne_true (halphanum.symm.trans hc)
    · exact hsign (by decide)
  · exact absurd hc (by decide)

theorem isAlphanum_or_equals_of_isLexeme {w : Word} (hw : w.IsLexeme) :
    ∀ d ∈ w.text.toList.tail, d.isAlphanum = true ∨ d = '=' := by
  have halphanumeric : Word.IsAlphanumeric w.text.toList →
      ∀ d ∈ w.text.toList.tail, d.isAlphanum = true ∨ d = '=' := by
    rintro ⟨c, tail, htext, _, htail⟩ d hd
    rw [htext] at hd
    exact .inl (htail d hd)
  have hsign : w.text.toList.tail.all (· == '=') = true →
      ∀ d ∈ w.text.toList.tail, d.isAlphanum = true ∨ d = '=' := by
    intro hall d hd
    exact .inr (beq_iff_eq.mp (List.all_eq_true.mp hall d hd))
  cases hw with
  | keyword hs => exact halphanumeric (Word.IsLexeme.isAlphanumeric_of_keyword hs)
  | identifier hx => exact halphanumeric hx.alphanumeric
  | number _ hs => exact fun d hd => .inl (isAlphanum_of_isDigit (hs d (List.mem_of_mem_tail hd)))
  | operator o => exact hsign (by cases o <;> decide)
  | comparison o => exact hsign (by cases o <;> decide)
  | assign | semicolon | colon => exact hsign (by decide)

theorem lexeme?_mark (rest : List Char) :
    lexeme? '!' rest = if rest.head? = some '=' then some (.comparison, 1) else none := rfl

theorem lexeme?_ne_none_of_mem_signs {c : Char} {rest : List Char} (hc : c ∈ signs)
    (hne : c ≠ '!' ∨ rest.head? = some '=') : lexeme? c rest ≠ none := by
  have hcolon : lexeme? ':' rest =
      some (if rest.head? = some '=' then (.assign, 1) else (.colon, 0)) := rfl
  simp only [signs, List.mem_cons, List.not_mem_nil, or_false] at hc
  rcases hc with rfl | rfl | rfl | rfl | rfl | rfl | rfl | rfl
  · exact Option.some_ne_none _
  · exact Option.some_ne_none _
  · exact hcolon ▸ Option.some_ne_none _
  · exact Option.some_ne_none _
  · exact Option.some_ne_none _
  · exact Option.some_ne_none _
  · exact Option.some_ne_none _
  · rw [lexeme?_mark, if_pos (hne.resolve_left fun h => h rfl)]
    exact Option.some_ne_none _

/-- A character that is not blank begins a lexeme unless it is illegal. -/
theorem lexeme?_eq_none_iff {c : Char} {rest : List Char} (hc : isBlank c = false) :
    lexeme? c rest = none ↔ IsIllegal (c :: rest) 0 := by
  rw [isIllegal_zero_iff]
  constructor
  · intro h
    have halpha : c.isAlpha = false := by
      refine Bool.eq_false_iff.mpr fun halpha => ?_
      rw [lexeme?, if_pos halpha] at h
      cases h
    have hdigit : c.isDigit = false := by
      refine Bool.eq_false_iff.mpr fun hdigit => ?_
      rw [lexeme?, if_neg (by simp [halpha]), if_pos hdigit] at h
      cases h
    by_cases hsign : c ∈ signs
    · right
      by_contra hlegal
      refine lexeme?_ne_none_of_mem_signs hsign ?_ h
      by_cases hmark : c = '!'
      · exact .inr (not_not.mp fun hhead => hlegal ⟨hmark, hhead⟩)
      · exact .inl hmark
    · exact .inl ⟨hc, by simp [Char.isAlphanum, halpha, hdigit], hsign⟩
  · rintro (⟨_, halphanum, hsign⟩ | ⟨rfl, hhead⟩)
    · simp only [Char.isAlphanum, Bool.or_eq_false_iff] at halphanum
      simp only [signs, List.mem_cons, List.not_mem_nil, or_false, not_or] at hsign
      simp [lexeme?, halphanum, hsign]
    · rw [lexeme?_mark, if_neg hhead]

/-- A lexeme has no illegal character, whatever comes behind it. -/
theorem not_isIllegal_of_isLexeme {w : Word} {rest : List Char} (hw : w.IsLexeme)
    (hend : w.EndsBefore rest) :
    ∀ i < w.text.toList.length, ¬ IsIllegal (w.text.toList ++ rest) i := by
  obtain ⟨c, tail, htext, hblank, hlex⟩ := heads_of_isLexeme hw hend
  have htail := isAlphanum_or_equals_of_isLexeme hw
  rw [htext] at htail ⊢
  intro i hi
  cases i with
  | zero =>
      rw [List.cons_append, ← lexeme?_eq_none_iff hblank, hlex]
      exact Option.some_ne_none _
  | succ i =>
      have hi : i < tail.length := Nat.lt_of_succ_lt_succ hi
      have hget : ((c :: tail) ++ rest)[i + 1]? = some tail[i] := by
        rw [List.cons_append, List.getElem?_cons_succ, List.getElem?_append_left hi,
          List.getElem?_eq_getElem hi]
      exact not_isIllegal_of_isAlphanum_or_equals hget (htail _ (List.getElem_mem hi))

theorem not_isIllegal_of_isBlank {c : Char} {rest : List Char} (hc : isBlank c = true) :
    ¬ IsIllegal (c :: rest) 0 := by
  rw [isIllegal_zero_iff]
  rintro (⟨hblank, _⟩ | ⟨rfl, _⟩)
  · exact Bool.false_ne_true (hblank.symm.trans hc)
  · exact absurd hc (by decide)

/-! ### The first of them -/

/-- Legal characters in front of a text only move its error. -/
theorem StopsAtFirst.append {done read rest : List Char} {e : Option LexicalError}
    (h : StopsAtFirst (done ++ read) rest e)
    (hread : ∀ i < read.length, ¬ IsIllegal (read ++ rest) i) :
    StopsAtFirst done (read ++ rest) e := by
  have hbehind : ∀ i, read.length ≤ i →
      (IsIllegal (read ++ rest) i ↔ IsIllegal rest (i - read.length)) := by
    intro i hi
    rw [← isIllegal_append_iff read rest, Nat.add_sub_cancel' hi]
  cases e with
  | none =>
      intro i
      rcases Nat.lt_or_ge i read.length with hi | hi
      · exact hread i hi
      · rw [hbehind i hi]
        exact h _
  | some e =>
      obtain ⟨i, c, hget, hillegal, hfirst, rfl⟩ := h
      refine ⟨read.length + i, c, ?_, (isIllegal_append_iff read rest i).mpr hillegal, ?_, ?_⟩
      · rw [List.getElem?_append_right (Nat.le_add_right _ _), Nat.add_sub_cancel_left, hget]
      · intro j hj
        rcases Nat.lt_or_ge j read.length with hlt | hge
        · exact hread j hlt
        · rw [hbehind j hge]
          exact hfirst _ (by omega)
      · rw [List.take_length_add_append, ← List.append_assoc]

/-- A scan is stopped by the first illegal character, and by nothing else. -/
theorem stopsAtFirst_scan (text : List Char) (p : Position) :
    ∀ done, p = .behind done → StopsAtFirst done text (scan text p).error := by
  induction text, p using Token.scan.induct with
  | case1 p =>
      intro done _
      rw [scan]
      rintro i ⟨c, hget, _⟩
      cases hget
  | case2 c rest p hc ih =>
      rintro done rfl
      rw [scan, if_pos hc]
      have hlegal : ∀ i < [c].length, ¬ IsIllegal ([c] ++ rest) i := by
        intro i hi
        obtain rfl := Nat.lt_one_iff.mp hi
        exact not_isIllegal_of_isBlank hc
      exact (ih (done ++ [c]) (Position.behind_concat ..).symm).append hlegal
  | case3 c rest p hc hlex =>
      rintro done rfl
      rw [scan, if_neg hc, hlex]
      refine ⟨0, c, rfl, (lexeme?_eq_none_iff (Bool.eq_false_iff.mpr hc)).mp hlex, ?_, ?_⟩
      · intro j hj
        exact absurd hj (Nat.not_lt_zero j)
      · rw [List.take_zero, List.append_nil]
  | case4 c rest p hc kind more hlex text ih =>
      rintro done rfl
      rw [scan, if_neg hc, hlex]
      obtain ⟨tail, after, rfl, rfl, hw, hend⟩ := cutsOff_of_lexeme? hlex
      simp only [text, List.take_left, List.drop_left] at ih ⊢
      have hlegal := not_isIllegal_of_isLexeme hw hend
      rw [String.toList_ofList] at hlegal
      exact (ih (done ++ c :: tail) (Position.behind_append ..).symm).append hlegal

theorem StopsAtFirst.unique {text : List Char} {e₁ e₂ : Option LexicalError} {done : List Char}
    (h₁ : StopsAtFirst done text e₁) (h₂ : StopsAtFirst done text e₂) : e₁ = e₂ := by
  cases e₁ with
  | none =>
      cases e₂ with
      | none => rfl
      | some e =>
          obtain ⟨i, _, _, hi, _⟩ := h₂
          exact absurd hi (h₁ i)
  | some e₁ =>
      obtain ⟨i, c, hc, hi, hfirst₁, rfl⟩ := h₁
      cases e₂ with
      | none => exact absurd hi (h₂ i)
      | some e₂ =>
          obtain ⟨j, d, hd, hj, hfirst₂, rfl⟩ := h₂
          have hle : i ≤ j := Nat.le_of_not_lt fun hlt => hfirst₁ j hlt hj
          have hge : j ≤ i := Nat.le_of_not_lt fun hlt => hfirst₂ i hlt hi
          obtain rfl := Nat.le_antisymm hle hge
          obtain rfl := Option.some.inj (hc.symm.trans hd)
          rfl

theorem stopsAtFirst_scan_start (text : String) :
    StopsAtFirst [] text.toList (scan text.toList .start).error :=
  stopsAtFirst_scan text.toList .start [] Position.behind_nil.symm

theorem ofText_eq_error_iff {text : String} {e : LexicalError} :
    ofText text = .error e ↔ StopsAtFirst [] text.toList (some e) := by
  have hscan := stopsAtFirst_scan_start text
  unfold ofText
  dsimp only
  constructor
  · intro h
    split at h
    · cases h
    · next _ herror =>
        obtain rfl := Except.error.inj h
        rwa [herror] at hscan
  · intro h
    rw [hscan.unique h]

/-- A text has no tokens iff one of its characters is illegal, and the error is about the first
that is: it names the character, its index, the line feeds before it and the distance from the last
of them. -/
theorem ofText_eq_error_iff_isIllegal (text : String) :
    ((∃ e, ofText text = .error e) ↔ ∃ i, IsIllegal text.toList i) ∧
    ∀ e, ofText text = .error e ↔
      ∃ i c, text.toList[i]? = some c ∧ IsIllegal text.toList i ∧
        (∀ j < i, ¬ IsIllegal text.toList j) ∧
        e = ⟨c, i, 1 + (text.toList.take i).count '\n',
          Position.columnBehind (text.toList.take i)⟩ := by
  have hscan := stopsAtFirst_scan_start text
  refine ⟨⟨?_, ?_⟩, fun e => ?_⟩
  · rintro ⟨e, h⟩
    obtain ⟨i, _, _, hi, _⟩ := ofText_eq_error_iff.mp h
    exact ⟨i, hi⟩
  · rintro ⟨i, hi⟩
    cases herror : (scan text.toList .start).error with
    | none =>
        rw [herror] at hscan
        exact absurd hi (hscan i)
    | some e =>
        rw [herror] at hscan
        exact ⟨e, ofText_eq_error_iff.mpr hscan⟩
  · rw [ofText_eq_error_iff]
    refine exists_congr fun i => exists_congr fun c => and_congr_right fun hget => ?_
    have hlength : (text.toList.take i).length = i := by
      obtain ⟨hlt, _⟩ := List.getElem?_eq_some_iff.mp hget
      rw [List.length_take, Nat.min_eq_left hlt.le]
    rw [List.nil_append, Position.behind, hlength]

example : ofText "x <= 1;\n  y !" = .error ⟨'!', 12, 2, 5⟩ := by decide +kernel

end Token

end CounterPrograms
