import CounterPrograms.Proofs.Token.Word
import Mathlib.Data.List.TakeWhile

/-!
# Texts that spell words

`Spells text ws` says that a text is made of the words `ws` with blanks between them, where no word
goes on in the character behind it.  The scanner finds exactly these words: it gives tokens of the
words that a text spells (`Spells.scan`), and what it has scanned without an error is spelled
(`spells_of_scan`).  Words with a blank behind each of them always spell (`spells_spaced`).
-/

namespace CounterPrograms

namespace Word

/-- Whether the character `c` would belong to the word if it came right behind it. -/
def Takes (w : Word) (c : Char) : Prop :=
  match w.kind with
  | .keyword | .identifier => c.isAlphanum = true
  | .number => c.isDigit = true
  | .colon => c = '='
  | .comparison => (w.text = "<" ∨ w.text = ">") ∧ c = '='
  | .operator | .assign | .semicolon | .endOfText => False

/-- Whether the word is over where `rest` begins. -/
def EndsBefore (w : Word) (rest : List Char) : Prop :=
  ∀ c ∈ rest.head?, ¬ w.Takes c

theorem not_takes {w : Word} {c : Char} (h : c.isAlphanum = false) (hne : c ≠ '=') :
    ¬ w.Takes c := by
  have hdigit : c.isDigit = false := by
    simp only [Char.isAlphanum, Bool.or_eq_false_iff] at h
    exact h.2
  unfold Takes
  split <;> simp [h, hdigit, hne]

theorem not_takes_of_isBlank {w : Word} {c : Char} (h : isBlank c = true) : ¬ w.Takes c := by
  refine not_takes (Bool.eq_false_iff.mpr fun halphanum => ?_) fun heq => ?_
  · exact Bool.false_ne_true ((isBlank_eq_false_of_isAlphanum halphanum).symm.trans h)
  · subst heq
    exact absurd h (by decide)

/-- The text of words with a blank behind each of them. -/
def spaced (ws : List Word) : String :=
  String.join (ws.map fun w => w.text ++ " ")

end Word

/-- The text is made of the given words, with blanks between them. -/
inductive Spells : List Char → List Word → Prop
  | nil : Spells [] []
  | blank {c : Char} {text : List Char} {ws : List Word} :
      isBlank c = true → Spells text ws → Spells (c :: text) ws
  | word {w : Word} {text : List Char} {ws : List Word} :
      w.IsLexeme → w.EndsBefore text → Spells text ws → Spells (w.text.toList ++ text) (w :: ws)

/-! ### Runs of characters -/

section runs

variable {p : Char → Bool} {run rest : List Char}

theorem takeWhile_append_of_stop (hrun : ∀ c ∈ run, p c = true)
    (hstop : ∀ c ∈ rest.head?, p c = false) : (run ++ rest).takeWhile p = run := by
  have hnil : rest.takeWhile p = [] := by
    cases rest with
    | nil => rfl
    | cons c cs => simp [hstop c rfl]
  rw [List.takeWhile_append_of_pos hrun, hnil, List.append_nil]

theorem exists_run (p : Char → Bool) (text : List Char) :
    ∃ run rest, text = run ++ rest ∧ text.takeWhile p = run ∧ (∀ c ∈ run, p c = true) ∧
      ∀ c ∈ rest.head?, p c = false := by
  refine ⟨text.takeWhile p, text.dropWhile p, List.takeWhile_append_dropWhile.symm, rfl, ?_, ?_⟩
  · intro c hc
    exact List.mem_takeWhile_imp hc
  · intro c hc
    have h := List.head?_dropWhile_not p text
    rwa [Option.mem_def.mp hc] at h

end runs

/-! ### The lexeme at the head of a text -/

namespace Token

theorem isAlpha_eq_false_of_isDigit {c : Char} (h : c.isDigit = true) : c.isAlpha = false := by
  have hdigit : c.val.toNat ≤ 57 := (Char.isDigit_iff_toNat.mp h).2
  have hupper : c.isUpper = false := by
    refine decide_eq_false fun hc => ?_
    have hle : 65 ≤ c.val.toNat := UInt32.le_iff_toNat_le.mp hc.1
    omega
  have hlower : c.isLower = false := by
    refine Bool.and_eq_false_iff.mpr (.inl (decide_eq_false fun hc => ?_))
    have hle : 97 ≤ c.val.toNat := UInt32.le_iff_toNat_le.mp hc
    omega
  exact Bool.or_eq_false_iff.mpr ⟨hupper, hlower⟩

theorem isAlphanum_of_isAlpha {c : Char} (h : c.isAlpha = true) : c.isAlphanum = true := by
  simp [Char.isAlphanum, h]

theorem isAlphanum_of_isDigit {c : Char} (h : c.isDigit = true) : c.isAlphanum = true := by
  simp [Char.isAlphanum, h]

/-- What a text needs at its head for `w` to be cut off: a character that is not blank, with which
a lexeme of the kind and the length of `w` begins. -/
def Heads (w : Word) (rest : List Char) : Prop :=
  ∃ c tail, w.text.toList = c :: tail ∧ isBlank c = false ∧
    lexeme? c (tail ++ rest) = some (w.kind, tail.length)

theorem heads_of_isAlphanumeric {w : Word} {rest : List Char}
    (hw : Word.IsAlphanumeric w.text.toList) (hkind : w.kind = kindOfWord w.text)
    (hstop : ∀ c ∈ rest.head?, c.isAlphanum = false) : Heads w rest := by
  obtain ⟨c, tail, htext, hc, htail⟩ := hw
  refine ⟨c, tail, htext, isBlank_eq_false_of_isAlphanum (isAlphanum_of_isAlpha hc), ?_⟩
  have hword : String.ofList (c :: tail) = w.text := by
    rw [← htext, String.ofList_toList]
  simp [lexeme?, hc, takeWhile_append_of_stop htail hstop, hword, hkind]

theorem heads_of_digits {s : String} {rest : List Char} (hne : s.toList ≠ [])
    (hs : ∀ c ∈ s.toList, c.isDigit = true) (hstop : ∀ c ∈ rest.head?, c.isDigit = false) :
    Heads (Word.number s) rest := by
  obtain ⟨c, tail, htext⟩ := List.exists_cons_of_ne_nil hne
  rw [htext, List.forall_mem_cons] at hs
  obtain ⟨hc, htail⟩ := hs
  refine ⟨c, tail, htext, isBlank_eq_false_of_isAlphanum (isAlphanum_of_isDigit hc), ?_⟩
  simp [lexeme?, hc, isAlpha_eq_false_of_isDigit hc, takeWhile_append_of_stop htail hstop,
    Word.number]

/-- A lexeme that is over where `rest` begins is cut off whole. -/
theorem heads_of_isLexeme {w : Word} {rest : List Char} (hw : w.IsLexeme)
    (hend : w.EndsBefore rest) : Heads w rest := by
  cases hw with
  | keyword hs =>
      refine heads_of_isAlphanumeric (Word.IsLexeme.isAlphanumeric_of_keyword hs) ?_ ?_
      · exact (if_pos hs).symm
      · exact fun c hc => Bool.eq_false_iff.mpr (hend c hc)
  | identifier hx =>
      refine heads_of_isAlphanumeric hx.alphanumeric ?_ ?_
      · exact (if_neg hx.not_keyword).symm
      · exact fun c hc => Bool.eq_false_iff.mpr (hend c hc)
  | number hne hs => exact heads_of_digits hne hs fun c hc => Bool.eq_false_iff.mpr (hend c hc)
  | operator o => cases o <;> exact ⟨_, _, rfl, by decide, rfl⟩
  | comparison o =>
      have hstop : o = .lt ∨ o = .gt → rest.head? ≠ some '=' := by
        rintro (rfl | rfl) h
        · exact hend _ h ⟨.inl rfl, rfl⟩
        · exact hend _ h ⟨.inr rfl, rfl⟩
      cases o with
      | lt =>
          have hlex : lexeme? '<' rest =
            some (.comparison, if rest.head? = some '=' then 1 else 0) := rfl
          rw [if_neg (hstop (.inl rfl))] at hlex
          exact ⟨'<', [], rfl, by decide, hlex⟩
      | gt =>
          have hlex : lexeme? '>' rest =
            some (.comparison, if rest.head? = some '=' then 1 else 0) := rfl
          rw [if_neg (hstop (.inr rfl))] at hlex
          exact ⟨'>', [], rfl, by decide, hlex⟩
      | eq | ne | le | ge => exact ⟨_, _, rfl, by decide, rfl⟩
  | assign | semicolon => exact ⟨_, _, rfl, by decide, rfl⟩
  | colon =>
      have hstop : rest.head? ≠ some '=' := fun h => hend _ h rfl
      have hlex : lexeme? ':' rest =
        some (if rest.head? = some '=' then (.assign, 1) else (.colon, 0)) := rfl
      rw [if_neg hstop] at hlex
      exact ⟨':', [], rfl, by decide, hlex⟩

/-- What is cut off is a lexeme, and over where the rest begins. -/
def CutsOff (c : Char) (rest : List Char) (kind : TokenKind) (more : Nat) : Prop :=
  ∃ tail after, rest = tail ++ after ∧ tail.length = more ∧
    Word.IsLexeme ⟨kind, String.ofList (c :: tail)⟩ ∧
    Word.EndsBefore ⟨kind, String.ofList (c :: tail)⟩ after

theorem cutsOff_word {c : Char} (hc : c.isAlpha = true) (rest : List Char) :
    CutsOff c rest (kindOfWord (String.ofList (c :: rest.takeWhile Char.isAlphanum)))
      (rest.takeWhile Char.isAlphanum).length := by
  obtain ⟨run, after, hsplit, hrun, hall, hstop⟩ := exists_run Char.isAlphanum rest
  rw [hrun]
  have hname : Word.IsAlphanumeric (String.ofList (c :: run)).toList :=
    ⟨c, run, String.toList_ofList, hc, hall⟩
  by_cases hkey : String.ofList (c :: run) ∈ keywords
  · rw [kindOfWord, if_pos hkey]
    exact ⟨run, after, hsplit, rfl, .keyword hkey, fun d hd => Bool.eq_false_iff.mp (hstop d hd)⟩
  · rw [kindOfWord, if_neg hkey]
    exact ⟨run, after, hsplit, rfl, .identifier ⟨hname, hkey⟩,
      fun d hd => Bool.eq_false_iff.mp (hstop d hd)⟩

theorem cutsOff_number {c : Char} (hc : c.isDigit = true) (rest : List Char) :
    CutsOff c rest .number (rest.takeWhile Char.isDigit).length := by
  obtain ⟨run, after, hsplit, hrun, hall, hstop⟩ := exists_run Char.isDigit rest
  rw [hrun]
  refine ⟨run, after, hsplit, rfl, ?_, fun d hd => Bool.eq_false_iff.mp (hstop d hd)⟩
  apply Word.IsLexeme.number
  · simp
  · rw [String.toList_ofList, List.forall_mem_cons]
    exact ⟨hc, hall⟩

theorem cutsOff_sign {c : Char} {rest : List Char} {kind : TokenKind}
    (hw : Word.IsLexeme ⟨kind, String.ofList [c]⟩)
    (hend : Word.EndsBefore ⟨kind, String.ofList [c]⟩ rest) : CutsOff c rest kind 0 :=
  ⟨[], rest, rfl, rfl, hw, hend⟩

theorem cutsOff_pair {c : Char} {rest : List Char} {kind : TokenKind}
    (hw : Word.IsLexeme ⟨kind, String.ofList [c, '=']⟩) (h : rest.head? = some '=')
    (hend : ∀ after, Word.EndsBefore ⟨kind, String.ofList [c, '=']⟩ after) :
    CutsOff c rest kind 1 := by
  obtain ⟨after, rfl⟩ := List.head?_eq_some_iff.mp h
  exact ⟨['='], after, rfl, rfl, hw, hend after⟩

/-- What is cut off from a text is a lexeme, and over where the rest begins. -/
theorem cutsOff_of_lexeme? {c : Char} {rest : List Char} {kind : TokenKind} {more : Nat}
    (h : lexeme? c rest = some (kind, more)) : CutsOff c rest kind more := by
  unfold lexeme? at h
  split at h
  · next hc =>
      cases h
      exact cutsOff_word hc rest
  · split at h
    · next hc =>
        cases h
        exact cutsOff_number hc rest
    · dsimp only at h
      split at h
      · next hc =>
          subst hc
          by_cases heq : rest.head? = some '='
          · rw [if_pos heq] at h
            cases h
            exact cutsOff_pair .assign heq fun _ _ _ => id
          · rw [if_neg heq] at h
            cases h
            exact cutsOff_sign .colon fun d hd hd' => heq (hd' ▸ hd)
      · split at h
        · next hc =>
            by_cases heq : rest.head? = some '='
            · rw [if_pos heq] at h
              cases h
              rcases hc with rfl | rfl
              · exact cutsOff_pair (.comparison .le) heq fun _ _ _ hd => absurd hd.1 (by decide)
              · exact cutsOff_pair (.comparison .ge) heq fun _ _ _ hd => absurd hd.1 (by decide)
            · rw [if_neg heq] at h
              cases h
              rcases hc with rfl | rfl
              · exact cutsOff_sign (.comparison .lt) fun d hd hd' => heq (hd'.2 ▸ hd)
              · exact cutsOff_sign (.comparison .gt) fun d hd hd' => heq (hd'.2 ▸ hd)
        · split at h
          · next hc =>
              subst hc
              cases h
              exact cutsOff_sign (.comparison .eq) fun _ _ hd => absurd hd.1 (by decide)
          · split at h
            · next hc =>
                subst hc
                split at h
                · next heq =>
                    cases h
                    exact cutsOff_pair (.comparison .ne) heq
                      fun _ _ _ hd => absurd hd.1 (by decide)
                · cases h
            · split at h
              · next hc =>
                  cases h
                  rcases hc with rfl | rfl
                  · exact cutsOff_sign (.operator .add) fun _ _ => id
                  · exact cutsOff_sign (.operator .sub) fun _ _ => id
              · split at h
                · next hc =>
                    subst hc
                    cases h
                    exact cutsOff_sign .semicolon fun _ _ => id
                · cases h

end Token

/-! ### Scanning -/

theorem Token.scan_lexeme {w : Word} {text : List Char} (hw : w.IsLexeme)
    (hend : w.EndsBefore text) (p : Position) :
    Token.scan (w.text.toList ++ text) p =
      { Token.scan text (p.afterAll w.text.toList) with
        tokens := ⟨w.kind, w.text, p.line, p.column⟩ ::
          (Token.scan text (p.afterAll w.text.toList)).tokens } := by
  obtain ⟨c, tail, htext, hblank, hlex⟩ := Token.heads_of_isLexeme hw hend
  have hword : String.ofList (c :: tail) = w.text := by
    rw [← htext, String.ofList_toList]
  rw [htext, List.cons_append, Token.scan, if_neg (by simp [hblank]), hlex]
  simp only [List.take_left, List.drop_left, hword]

/-- The scanner finds the words that a text spells, and the mark of its end. -/
theorem Spells.scan {text : List Char} {ws : List Word} (h : Spells text ws) (p : Position) :
    (Token.scan text p).error = none ∧
      (Token.scan text p).tokens.map Token.word = ws ++ [Word.endOfText] := by
  -- Positions have no influence on the words, so the induction is for all of them at once.
  induction h generalizing p with
  | nil =>
      rw [Token.scan]
      exact ⟨rfl, rfl⟩
  | blank hc _ ih =>
      rw [Token.scan, if_pos hc]
      exact ih _
  | @word w text ws hw hend _ ih =>
      rw [Token.scan_lexeme hw hend]
      obtain ⟨herror, htokens⟩ := ih (p.afterAll w.text.toList)
      exact ⟨herror, congrArg (w :: ·) htokens⟩

/-- What was scanned without an error is spelled by the text. -/
theorem spells_of_scan {text : List Char} {p : Position} (h : (Token.scan text p).error = none) :
    ∃ ws, Spells text ws ∧ (Token.scan text p).tokens.map Token.word = ws ++ [Word.endOfText] := by
  induction text, p using Token.scan.induct with
  | case1 p =>
      rw [Token.scan]
      exact ⟨[], .nil, rfl⟩
  | case2 c rest p hc ih =>
      rw [Token.scan, if_pos hc] at h ⊢
      obtain ⟨ws, hspells, htokens⟩ := ih h
      exact ⟨ws, .blank hc hspells, htokens⟩
  | case3 c rest p hc hlex =>
      rw [Token.scan, if_neg hc, hlex] at h
      cases h
  | case4 c rest p hc kind more hlex text ih =>
      rw [Token.scan, if_neg hc, hlex] at h ⊢
      obtain ⟨ws, hspells, htokens⟩ := ih h
      obtain ⟨tail, after, rfl, rfl, hw, hend⟩ := Token.cutsOff_of_lexeme? hlex
      simp only [List.take_left, List.drop_left, List.map_cons, text] at hspells htokens ⊢
      have hall := Spells.word hw hend hspells
      rw [String.toList_ofList] at hall
      exact ⟨_, hall, congrArg (_ :: ·) htokens⟩

namespace Token

theorem exists_spells_of_ofText {text : String} {ts : List Token} (h : ofText text = .ok ts) :
    ∃ ws, Spells text.toList ws ∧ ts.map word = ws ++ [Word.endOfText] := by
  unfold ofText at h
  dsimp only at h
  split at h
  · next herror =>
      obtain rfl := Except.ok.inj h
      exact spells_of_scan herror
  · cases h

theorem ofText_of_spells {text : String} {ws : List Word} (h : Spells text.toList ws) :
    ∃ ts, ofText text = .ok ts ∧ ts.map word = ws ++ [Word.endOfText] := by
  obtain ⟨herror, htokens⟩ := h.scan .start
  refine ⟨_, ?_, htokens⟩
  unfold ofText
  dsimp only
  rw [herror]

end Token

namespace Spells

variable {text : List Char} {ws : List Word}

theorem isLexeme (h : Spells text ws) : ∀ w ∈ ws, w.IsLexeme := by
  induction h with
  | nil => exact nofun
  | blank _ _ ih => exact ih
  | word hw _ _ ih => exact List.forall_mem_cons.mpr ⟨hw, ih⟩

theorem blanks {gap : List Char} (hgap : ∀ c ∈ gap, isBlank c = true) (h : Spells text ws) :
    Spells (gap ++ text) ws := by
  induction gap with
  | nil => exact h
  | cons c gap ih =>
      rw [List.forall_mem_cons] at hgap
      exact .blank hgap.1 (ih hgap.2)

/-- A word and the gap behind it, which no text needs to have at its end. -/
theorem word_gap {w : Word} {gap : List Char} (hw : w.IsLexeme)
    (hgap : ∀ c ∈ gap, isBlank c = true) (hne : gap ≠ [] ∨ text = []) (h : Spells text ws) :
    Spells (w.text.toList ++ (gap ++ text)) (w :: ws) := by
  refine .word hw ?_ (h.blanks hgap)
  intro c hc
  -- What comes behind the word is the first character of the gap, so no word takes it.
  obtain ⟨b, tail, rfl⟩ : ∃ b tail, gap = b :: tail := by
    refine List.exists_cons_of_ne_nil fun hnil => ?_
    rw [hnil, hne.resolve_left fun h => h hnil] at hc
    cases hc
  obtain rfl := Option.some.inj hc
  exact Word.not_takes_of_isBlank (hgap b List.mem_cons_self)

end Spells

theorem spells_spaced {ws : List Word} (h : ∀ w ∈ ws, w.IsLexeme) :
    Spells (Word.spaced ws).toList ws := by
  induction ws with
  | nil => exact .nil
  | cons w ws ih =>
      rw [List.forall_mem_cons] at h
      have htext : (Word.spaced (w :: ws)).toList =
          w.text.toList ++ ' ' :: (Word.spaced ws).toList := by
        simp [Word.spaced]
      rw [htext]
      have hblank : ∀ c ∈ [' '], isBlank c = true := List.forall_mem_singleton.mpr (by decide)
      exact .word_gap h.1 hblank (.inl (List.cons_ne_nil _ _)) (ih h.2)

end CounterPrograms
