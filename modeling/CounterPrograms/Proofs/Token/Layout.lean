import CounterPrograms.Proofs.Token.Spelling

/-!
# Texts laid out anew

The words of a text do not depend on its layout: whatever blanks are put in front of them, between
them and behind them, the scanner finds the same words, if there is at least one blank between any
two (`Token.words_of_layout`).  The gap behind the last word may be empty.
-/

namespace CounterPrograms

namespace Word

/-- The text of `first`, and of each word with the gap behind it. -/
def layout (first : List Char) (ws : List Word) (gaps : List (List Char)) : List Char :=
  first ++ (List.zipWith (fun w gap => w.text.toList ++ gap) ws gaps).flatten

@[simp]
theorem layout_nil (gaps : List (List Char)) : layout [] [] gaps = [] := rfl

theorem layout_eq (first : List Char) (ws : List Word) (gaps : List (List Char)) :
    layout first ws gaps = first ++ layout [] ws gaps := rfl

theorem layout_cons (w : Word) (ws : List Word) (gap : List Char) (gaps : List (List Char)) :
    layout [] (w :: ws) (gap :: gaps) = w.text.toList ++ (gap ++ layout [] ws gaps) := by
  simp [layout]

theorem spells_layout {ws : List Word} {gaps : List (List Char)} (hlexeme : ∀ w ∈ ws, w.IsLexeme)
    (hlength : gaps.length = ws.length) (hblank : ∀ gap ∈ gaps, ∀ c ∈ gap, isBlank c = true)
    (hne : ∀ gap ∈ gaps.dropLast, gap ≠ []) : Spells (layout [] ws gaps) ws := by
  induction ws generalizing gaps with
  | nil => exact .nil
  | cons w ws ih =>
      obtain ⟨gap, gaps, rfl⟩ := List.exists_cons_of_length_eq_add_one hlength
      rw [List.forall_mem_cons] at hlexeme hblank
      have hlength : gaps.length = ws.length := Nat.succ.inj hlength
      -- The last gap is the one with no word behind it.
      have hgap : gap ≠ [] ∨ layout [] ws gaps = [] := by
        cases ws with
        | nil => exact .inr (layout_nil gaps)
        | cons v ws =>
            obtain ⟨next, gaps, rfl⟩ := List.exists_cons_of_length_eq_add_one hlength
            exact .inl (hne gap List.mem_cons_self)
      have hnext : ∀ gap ∈ gaps.dropLast, gap ≠ [] := by
        cases gaps with
        | nil => exact List.forall_mem_nil _
        | cons next gaps => exact fun g hg => hne g (List.mem_cons_of_mem _ hg)
      rw [layout_cons]
      exact .word_gap hlexeme.1 hblank.1 hgap (ih hlexeme.2 hlength hblank.2 hnext)

end Word

namespace Token

/-- The tokens of a text are its words and the mark of its end, and they are found again in every
text that has the same words with blanks between them. -/
theorem words_of_layout {text : String} {ts : List Token} (h : ofText text = .ok ts)
    {first : List Char} {gaps : List (List Char)} (hlength : gaps.length = (words ts).length)
    (hblank : ∀ gap ∈ first :: gaps, ∀ c ∈ gap, isBlank c = true)
    (hne : ∀ gap ∈ gaps.dropLast, gap ≠ []) :
    ts.map word = words ts ++ [Word.endOfText] ∧
      ∃ us, ofText (String.ofList (Word.layout first (words ts) gaps)) = .ok us ∧
        us.map word = ts.map word := by
  obtain ⟨ws, hspells, hmap⟩ := exists_spells_of_ofText h
  obtain ⟨_, _, _, _, hwords⟩ := exists_of_map_word hmap hspells.isLexeme
  rw [hwords] at hlength ⊢
  rw [List.forall_mem_cons] at hblank
  have hlayout : Spells (String.ofList (Word.layout first ws gaps)).toList ws := by
    rw [String.toList_ofList, Word.layout_eq]
    exact (Word.spells_layout hspells.isLexeme hlength hblank.2 hne).blanks hblank.1
  obtain ⟨us, hus, hmap'⟩ := ofText_of_spells hlayout
  exact ⟨hmap, us, hus, hmap'.trans hmap.symm⟩

/-- Signs and numerals that would be one word without a gap stay two in any layout. -/
theorem words_of_layout_apart :
    ofText "a: =1 2b" = .ok [⟨.identifier, "a", 1, 1⟩, ⟨.colon, ":", 1, 2⟩,
      ⟨.comparison, "=", 1, 4⟩, ⟨.number, "1", 1, 5⟩, ⟨.number, "2", 1, 7⟩,
      ⟨.identifier, "b", 1, 8⟩, ⟨.endOfText, "", 1, 9⟩] ∧
    ∃ us, ofText "\n a\t:\n\n= 1\n2 b" = .ok us ∧
      us.map word = [.identifier "a", .colon, .comparison .eq, .number "1", .number "2",
        .identifier "b", .endOfText] := by
  have h : ofText "a: =1 2b" = .ok [⟨.identifier, "a", 1, 1⟩, ⟨.colon, ":", 1, 2⟩,
      ⟨.comparison, "=", 1, 4⟩, ⟨.number, "1", 1, 5⟩, ⟨.number, "2", 1, 7⟩,
      ⟨.identifier, "b", 1, 8⟩, ⟨.endOfText, "", 1, 9⟩] := by decide +kernel
  have hblank : [['\n', ' '], ['\t'], ['\n', '\n'], [' '], ['\n'], [' '], []].all
    (fun gap => gap.all isBlank) = true := by decide
  exact ⟨h, (words_of_layout h rfl
    (fun gap hgap => List.all_eq_true.mp (List.all_eq_true.mp hblank gap hgap)) (by simp)).2⟩

end Token

end CounterPrograms
