import Mathlib.Data.String.Basic

/-!
# The lines of a text

A text of one or more lines, joined by line feeds, is cut into these lines again, as long as no line
holds a line feed itself (`Lines.splitOn_intercalate`).

`String.splitOn` goes through a text by the byte positions of its characters, with the separator
beside it.  For a separator of one character there are three cases: the end of the text, the
separator and any other character.  In each of them the text is `l ++ m ++ r`, of which `l` is done,
`m` is the line so far and `r` is still to be read.
-/

namespace CounterPrograms

namespace Lines

open String

section splitting

variable {l m r : List Char} {c : Char} {acc : List String}

theorem not_atEnd (c : Char) (l r : List Char) :
    ¬ Pos.Raw.atEnd (ofList (l ++ c :: r)) ⟨utf8Len l⟩ = true :=
  fun h => List.cons_ne_nil c r ((atEnd_of_valid l (c :: r)).mp h)

theorem next_eq (c : Char) (l r : List Char) :
    Pos.Raw.next (ofList (l ++ c :: r)) ⟨utf8Len l⟩ = ⟨utf8Len (l ++ [c])⟩ := by
  rw [next_of_valid, utf8Len_append, utf8Len_cons, utf8Len_nil, Nat.zero_add]

theorem splitOnAux_end :
    splitOnAux (ofList (l ++ m)) "\n" ⟨utf8Len l⟩ ⟨utf8Len (l ++ m)⟩ 0 acc =
      acc.reverse ++ [ofList m] := by
  have hend : Pos.Raw.atEnd (ofList (l ++ m)) ⟨utf8Len (l ++ m)⟩ = true := by
    simpa using (atEnd_of_valid (l ++ m) []).mpr rfl
  have hline : Pos.Raw.extract (ofList (l ++ m)) ⟨utf8Len l⟩ ⟨utf8Len (l ++ m)⟩ = ofList m := by
    simpa using extract_of_valid l m []
  rw [splitOnAux, if_pos hend, hline]
  exact List.reverse_cons

/-- At a line feed the line is done, and the next one begins behind it. -/
theorem splitOnAux_newline :
    splitOnAux (ofList (l ++ m ++ '\n' :: r)) "\n" ⟨utf8Len l⟩ ⟨utf8Len (l ++ m)⟩ 0 acc =
      splitOnAux (ofList (l ++ m ++ '\n' :: r)) "\n" ⟨utf8Len (l ++ m ++ ['\n'])⟩
        ⟨utf8Len (l ++ m ++ ['\n'])⟩ 0 (ofList m :: acc) := by
  have hget := get_of_valid (l ++ m) ('\n' :: r)
  have hsame : ('\n' == Pos.Raw.get "\n" 0) = true := by decide
  have hdone : Pos.Raw.atEnd "\n" (Pos.Raw.next "\n" 0) = true := by decide
  have hback : (⟨utf8Len (l ++ m ++ ['\n'])⟩ : Pos.Raw).unoffsetBy (Pos.Raw.next "\n" 0) =
      ⟨utf8Len l + utf8Len m⟩ := by
    have hnext : Pos.Raw.next "\n" 0 = ⟨1⟩ := by decide
    rw [hnext, utf8Len_append, utf8Len_append]
    rfl
  have hline := extract_of_valid l m ('\n' :: r)
  rw [splitOnAux, if_neg (not_atEnd '\n' _ _), hget, List.headD_cons, if_pos hsame, next_eq]
  simp only [hdone, hback, hline, if_true]

theorem splitOnAux_other (hc : c ≠ '\n') :
    splitOnAux (ofList (l ++ m ++ c :: r)) "\n" ⟨utf8Len l⟩ ⟨utf8Len (l ++ m)⟩ 0 acc =
      splitOnAux (ofList (l ++ m ++ c :: r)) "\n" ⟨utf8Len l⟩ ⟨utf8Len (l ++ m ++ [c])⟩ 0 acc := by
  have hget := get_of_valid (l ++ m) (c :: r)
  have hother : ¬ (c == Pos.Raw.get "\n" 0) = true := by
    have hfeed : Pos.Raw.get "\n" 0 = '\n' := by decide
    rw [hfeed, beq_iff_eq]
    exact hc
  have hback : (⟨utf8Len (l ++ m)⟩ : Pos.Raw).unoffsetBy 0 = ⟨utf8Len (l ++ m)⟩ := rfl
  rw [splitOnAux, if_neg (not_atEnd c _ _), hget, List.headD_cons, if_neg hother, hback, next_eq]

/-- What is read from any point on are the lines of the characters there. -/
theorem splitOnAux_eq (l m r : List Char) (acc : List String) :
    splitOnAux (ofList (l ++ m ++ r)) "\n" ⟨utf8Len l⟩ ⟨utf8Len (l ++ m)⟩ 0 acc =
      acc.reverse ++ (List.splitOnPPrepend (· == '\n') r m.reverse).map ofList := by
  induction r generalizing l m acc with
  | nil =>
      rw [List.append_nil, splitOnAux_end]
      simp
  | cons c r ih =>
      rw [List.splitOnPPrepend_cons_eq_if]
      by_cases hc : c = '\n'
      · subst hc
        have hrest := ih (l ++ m ++ ['\n']) [] (ofList m :: acc)
        rw [splitOnAux_newline, if_pos (beq_self_eq_true '\n')]
        simpa using hrest
      · have hrest := ih l (m ++ [c]) acc
        rw [splitOnAux_other hc, if_neg (by simpa using hc)]
        simpa using hrest

end splitting

theorem splitOn_eq (s : String) : s.splitOn "\n" = (s.toList.splitOn '\n').map ofList := by
  have h := splitOnAux_eq [] [] s.toList []
  have hsep : ¬ ("\n" == "") = true := by decide
  rw [splitOn, if_neg hsep]
  simpa [List.splitOn] using h

/-- Joined lines are cut into the same lines again. -/
theorem splitOn_intercalate {lines : List String} (hne : lines ≠ [])
    (h : ∀ s ∈ lines, '\n' ∉ s.toList) : ("\n".intercalate lines).splitOn "\n" = lines := by
  have hlists : ∀ cs ∈ lines.map toList, '\n' ∉ cs := List.forall_mem_map.mpr h
  have hnewline : "\n".toList = ['\n'] := rfl
  rw [splitOn_eq, toList_intercalate, hnewline,
    List.splitOn_intercalate '\n' hlists (List.map_eq_nil_iff.not.mpr hne), List.map_map]
  simp [Function.comp_def]

end Lines

end CounterPrograms
