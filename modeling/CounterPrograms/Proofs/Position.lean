import CounterPrograms.Position
import Mathlib.Data.List.Basic

/-!
# Lines and columns

Where a position stands is a matter of the characters before it: its line is one more than the line
feeds among them, and its column is the distance from the last of these
(`Position.columnBehind_append_of_not_mem`), or from one before the text if there is none
(`Position.columnBehind_of_not_mem`).  `Position.behind` says so without walking through the text,
and `Position.behind_append` that a walk through further characters ends behind these.

`Position.IsIn` says it of a position and a text by indices, also behind the end of the text.  One
step keeps it (`Position.IsIn.after`, `Position.IsIn.beyond`), each offset has one such position
(`Position.IsIn.unique`), and up to the end this is the one behind the characters before
(`Position.IsIn.eq_behind`).
-/

namespace CounterPrograms

namespace Position

/-- The distance from the last line feed of `done`, or from one before it, to the end of `done`. -/
def columnBehind (done : List Char) : Nat :=
  done.reverse.idxOf '\n' + 1

/-- The position behind the first characters `done` of a text. -/
def behind (done : List Char) : Position where
  offset := done.length
  line := 1 + done.count '\n'
  column := columnBehind done

/-! ### Columns -/

section columns

variable {cs : List Char}

/-- In the first line, the distance is from one before the text. -/
theorem columnBehind_of_not_mem (h : '\n' ∉ cs) : columnBehind cs = cs.length + 1 := by
  have hcs : '\n' ∉ cs.reverse := fun hmem => h (List.mem_reverse.mp hmem)
  rw [columnBehind, List.idxOf_eq_length_iff.mpr hcs, List.length_reverse]

/-- Behind a line feed, the distance is from the last one. -/
theorem columnBehind_append_of_not_mem (done : List Char) (h : '\n' ∉ cs) :
    columnBehind (done ++ '\n' :: cs) = (done ++ '\n' :: cs).length - done.length := by
  have hcs : '\n' ∉ cs.reverse := fun hmem => h (List.mem_reverse.mp hmem)
  have hcolumn : columnBehind (done ++ '\n' :: cs) = cs.length + 1 := by
    simp [columnBehind, List.idxOf_append_of_notMem hcs]
  rw [hcolumn, List.length_append, List.length_cons]
  omega

end columns

/-! ### Walks -/

@[simp]
theorem behind_nil : behind [] = start := rfl

theorem behind_concat (done : List Char) (c : Char) :
    behind (done ++ [c]) = (behind done).after c := by
  by_cases h : c = '\n'
  · subst h
    simp [behind, after, columnBehind, Nat.add_assoc]
  · simp [behind, after, columnBehind, h, List.idxOf_cons_ne]

/-- A walk that begins behind `done` ends behind the characters that it has passed, too. -/
theorem behind_append (done cs : List Char) : behind (done ++ cs) = (behind done).afterAll cs := by
  induction cs generalizing done with
  | nil => rw [List.append_nil, afterAll_nil]
  | cons c cs ih => rw [List.append_cons, ih, behind_concat, afterAll_cons]

/-! ### Positions in a text -/

/-- The line and the column of a position are those of its offset in the text: the line is one more
than the line feeds before it, and the column is the distance from the last of these, or from one
before the text if there is none.  Behind the end of the text, the line goes on. -/
structure IsIn (text : List Char) (p : Position) : Prop where
  line : p.line = 1 + (text.take p.offset).count '\n'
  column : ∀ i < p.offset, text[i]? = some '\n' →
    (∀ j < p.offset, text[j]? = some '\n' → j ≤ i) → p.column = p.offset - i
  column_of_first : (∀ i < p.offset, text[i]? ≠ some '\n') → p.column = p.offset + 1

/-- Below `n`, a property has no index or a last one. -/
theorem exists_last_or_none (P : Nat → Prop) (n : Nat) :
    (∀ i < n, ¬ P i) ∨ ∃ i < n, P i ∧ ∀ j < n, P j → j ≤ i := by
  induction n with
  | zero => exact .inl fun i hi => absurd hi (Nat.not_lt_zero i)
  | succ n ih =>
      by_cases hn : P n
      · exact .inr ⟨n, Nat.lt_succ_self n, hn, fun j hj _ => Nat.le_of_lt_succ hj⟩
      · have hlt : ∀ j < n + 1, P j → j < n := fun j hj hPj =>
          Nat.lt_of_le_of_ne (Nat.le_of_lt_succ hj) fun heq => hn (heq ▸ hPj)
        rcases ih with hnone | ⟨i, hi, hPi, hlast⟩
        · exact .inl fun j hj hPj => hnone j (hlt j hj hPj) hPj
        · exact .inr ⟨i, Nat.lt_succ_of_lt hi, hPi, fun j hj hPj => hlast j (hlt j hj hPj) hPj⟩

theorem isIn_start (text : List Char) : IsIn text start where
  line := rfl
  column := fun _ hi => absurd hi (Nat.not_lt_zero _)
  column_of_first := fun _ => rfl

namespace IsIn

variable {text : List Char} {p : Position}

theorem next_line (h : p.IsIn text) (hc : text[p.offset]? = some '\n') :
    IsIn text ⟨p.offset + 1, p.line + 1, 1⟩ where
  line := by
    have hline := h.line
    rw [List.take_add_one, hc, List.count_append, Option.toList_some, List.count_singleton_self]
    show p.line + 1 = 1 + ((text.take p.offset).count '\n' + 1)
    omega
  column := by
    intro i hi _ hlast
    -- The line feed just passed is the last one.
    have hle : p.offset ≤ i := hlast p.offset (Nat.lt_succ_self _) hc
    have hlt : i < p.offset + 1 := hi
    show 1 = p.offset + 1 - i
    omega
  column_of_first := fun hfirst => absurd hc (hfirst p.offset (Nat.lt_succ_self _))

/-- Behind any other character, and behind the end of the text, the line goes on. -/
theorem next_column (h : p.IsIn text) (hc : text[p.offset]? ≠ some '\n') :
    IsIn text ⟨p.offset + 1, p.line, p.column + 1⟩ where
  line := by
    have hcount : text[p.offset]?.toList.count '\n' = 0 := by
      rw [List.count_eq_zero, Option.mem_toList]
      exact hc
    rw [List.take_add_one, List.count_append, hcount, Nat.add_zero]
    exact h.line
  column := by
    intro i hi hfeed hlast
    have hlt : i < p.offset := by
      refine Nat.lt_of_le_of_ne (Nat.le_of_lt_succ hi) fun heq => hc ?_
      rw [← heq]
      exact hfeed
    have hcolumn : p.column = p.offset - i :=
      h.column i hlt hfeed fun j hj => hlast j (Nat.lt_succ_of_lt hj)
    show p.column + 1 = p.offset + 1 - i
    omega
  column_of_first := by
    intro hfirst
    have hcolumn : p.column = p.offset + 1 :=
      h.column_of_first fun i hi => hfirst i (Nat.lt_succ_of_lt hi)
    show p.column + 1 = p.offset + 1 + 1
    omega

theorem after {c : Char} (h : p.IsIn text) (hc : text[p.offset]? = some c) :
    (p.after c).IsIn text := by
  unfold Position.after
  split
  · next hfeed => exact h.next_line (hfeed ▸ hc)
  · next hother => exact h.next_column fun hfeed => hother (Option.some.inj (hc.symm.trans hfeed))

theorem beyond (h : p.IsIn text) (hc : text[p.offset]? = none) : p.beyond.IsIn text :=
  h.next_column (hc ▸ (Option.some_ne_none _).symm)

/-- A walk through the characters that come next stays in the text. -/
theorem afterAll {cs rest : List Char} (h : p.IsIn text) (hcs : text.drop p.offset = cs ++ rest) :
    (p.afterAll cs).IsIn text := by
  induction cs generalizing p with
  | nil => exact h
  | cons c cs ih =>
      have hc : text[p.offset]? = some c := by
        rw [← List.head?_drop, hcs, List.cons_append, List.head?_cons]
      refine ih (h.after hc) ?_
      rw [offset_after, ← List.tail_drop, hcs, List.cons_append, List.tail_cons]

/-- There is one position at each offset. -/
theorem unique {q : Position} (hp : p.IsIn text) (hq : q.IsIn text)
    (hoffset : p.offset = q.offset) : p = q := by
  have hline : p.line = q.line := by rw [hp.line, hq.line, hoffset]
  have hcolumn : p.column = q.column := by
    rcases exists_last_or_none (fun i => text[i]? = some '\n') q.offset with
      hfirst | ⟨i, hi, hfeed, hlast⟩
    · rw [hq.column_of_first hfirst, hp.column_of_first (hoffset ▸ hfirst), hoffset]
    · rw [hq.column i hi hfeed hlast, hp.column i (hoffset ▸ hi) hfeed (hoffset ▸ hlast), hoffset]
  cases p
  cases q
  simp_all

end IsIn

theorem isIn_behind (done rest : List Char) : (behind done).IsIn (done ++ rest) := by
  have hwalk : behind done = start.afterAll done := behind_append [] done
  rw [hwalk]
  exact (isIn_start (done ++ rest)).afterAll rfl

theorem IsIn.eq_behind {text : List Char} {p : Position} (h : p.IsIn text)
    (hle : p.offset ≤ text.length) : p = behind (text.take p.offset) := by
  have hbehind := isIn_behind (text.take p.offset) (text.drop p.offset)
  rw [List.take_append_drop] at hbehind
  refine h.unique hbehind ?_
  show p.offset = (text.take p.offset).length
  rw [List.length_take, Nat.min_eq_left hle]

end Position

end CounterPrograms
