import CounterPrograms.Program.Printer
import CounterPrograms.Proofs.Compile.Fresh
import CounterPrograms.Proofs.Program.Block
import CounterPrograms.Proofs.Program.WellFormed

/-!
# Printed programs are read back

The printed text of a well-formed program spells words from which the grammar derives the program,
so the program is read back from it, whatever blanks it is indented by
(`Program.parse_of_print`).

`Writes s ws` says that the text `s` spells the words `ws` also where more comes behind it, unless
this begins with a letter, a digit or an equals sign; `WritesLines` says the same of lines, where it
does not matter what comes behind.
-/

namespace CounterPrograms

/-! ### Texts of words -/

/-- The text goes on with no character that a word could take. -/
def Clear (rest : List Char) : Prop :=
  ∀ c ∈ rest.head?, c.isAlphanum = false ∧ c ≠ '='

theorem clear_cons {c : Char} (h : c.isAlphanum = false) (hne : c ≠ '=') (rest : List Char) :
    Clear (c :: rest) := by
  intro d hd
  obtain rfl := Option.some.inj hd
  exact ⟨h, hne⟩

/-- The text spells readable words, and goes on doing so before a clear text. -/
structure Writes (s : String) (ws : List Word) : Prop where
  readable : ∀ a ∈ ws, a.IsReadable
  spells : ∀ rest us, Clear rest → Spells rest us → Spells (s.toList ++ rest) (ws ++ us)

namespace Writes

variable {s t : String} {us ws : List Word} {w : Word}

theorem word (h : w.IsReadable) : Writes w.text [w] := by
  refine ⟨List.forall_mem_singleton.mpr h, fun rest us hclear hrest => ?_⟩
  exact .word h.isLexeme (fun c hc => Word.not_takes (hclear c hc).1 (hclear c hc).2) hrest

theorem keyword {k : String} (h : k ∈ Token.keywords) : Writes k [.keyword k] :=
  word (.keyword h)

theorem identifier {x : String} (h : Word.IsIdentifier x) : Writes x [.identifier x] :=
  word (.identifier h)

theorem spaced (hs : Writes s us) (ht : Writes t ws) : Writes (s ++ " " ++ t) (us ++ ws) := by
  refine ⟨List.forall_mem_append.mpr ⟨hs.readable, ht.readable⟩, fun rest vs hclear hrest => ?_⟩
  have htext : (s ++ " " ++ t).toList ++ rest = s.toList ++ ' ' :: (t.toList ++ rest) := by simp
  rw [htext, List.append_assoc]
  exact hs.spells _ _ (clear_cons (by decide) (by decide) _)
    (.blank (by decide) (ht.spells rest vs hclear hrest))

theorem sign {c : Char} (hs : Writes s us) (hw : w.IsReadable) (htext : w.text.toList = [c])
    (hc : c.isAlphanum = false ∧ c ≠ '=') : Writes (s ++ w.text) (us ++ [w]) := by
  refine ⟨List.forall_mem_append.mpr ⟨hs.readable, List.forall_mem_singleton.mpr hw⟩,
    fun rest vs hclear hrest => ?_⟩
  have hsign := (word hw).spells rest vs hclear hrest
  rw [htext] at hsign
  rw [String.toList_append, htext, List.append_assoc, List.append_assoc]
  exact hs.spells _ _ (clear_cons hc.1 hc.2 _) hsign

theorem blanks {pad : String} (hpad : ∀ c ∈ pad.toList, isBlank c = true) (hs : Writes s ws) :
    Writes (pad ++ s) ws := by
  refine ⟨hs.readable, fun rest us hclear hrest => ?_⟩
  rw [String.toList_append, List.append_assoc]
  exact (hs.spells rest us hclear hrest).blanks hpad

end Writes

/-- The lines, each ended by a line feed, spell readable words, whatever comes behind them. -/
structure WritesLines (ls : List String) (ws : List Word) : Prop where
  readable : ∀ a ∈ ws, a.IsReadable
  spells : ∀ rest us, Spells rest us →
    Spells ((String.join (ls.map (· ++ "\n"))).toList ++ rest) (ws ++ us)

namespace WritesLines

variable {ls ks : List String} {us ws : List Word}

theorem nil : WritesLines [] [] :=
  ⟨nofun, fun _ _ h => h⟩

theorem append (h : WritesLines ls us) (h' : WritesLines ks ws) :
    WritesLines (ls ++ ks) (us ++ ws) := by
  refine ⟨List.forall_mem_append.mpr ⟨h.readable, h'.readable⟩, fun rest vs hrest => ?_⟩
  rw [List.map_append, String.join_append, String.toList_append, List.append_assoc,
    List.append_assoc]
  exact h.spells _ _ (h'.spells rest vs hrest)

theorem line {s : String} (h : Writes s ws) : WritesLines [s] ws := by
  refine ⟨h.readable, fun rest us hrest => ?_⟩
  have htext : (String.join ([s].map (· ++ "\n"))).toList ++ rest = s.toList ++ '\n' :: rest := by
    simp
  rw [htext]
  exact h.spells _ _ (clear_cons (by decide) (by decide) _) (.blank (by decide) hrest)

theorem cons {s : String} (h : Writes s us) (h' : WritesLines ls ws) :
    WritesLines (s :: ls) (us ++ ws) :=
  (line h).append h'

end WritesLines

/-! ### Expressions and conditions -/

open Grammar

theorem Numeral.writes_text {n : Nat} (h : n < bound) :
    Writes (text n) [.number (text n)] ∧ value (text n).toList = n := by
  have hdigits : (text n).toList = digits n := toList_text n
  refine ⟨.word (w := .number (text n)) ⟨.number ?_ ?_, fun _ => ?_⟩, ?_⟩
  · rw [hdigits]
    exact Nat.toDigits_ne_nil
  · rw [hdigits]
    exact fun c hc => isDigit_of_mem_digits hc
  · show (text n).length ≤ limit
    rw [← String.length_toList, hdigits]
    exact lt_bound_iff.mp h
  · rw [hdigits, value_digits]

theorem Expr.exists_print_operand {e : Expr} (h : e.IsOperand) :
    ∃ s ws, e.print = .ok s ∧ Writes s ws ∧ Grammar.IsOperand ws e := by
  cases e with
  | num v =>
      obtain ⟨hpos, hlt⟩ := h
      obtain ⟨n, rfl⟩ := Int.eq_ofNat_of_zero_le hpos
      have hn : n < Numeral.bound := Int.ofNat_lt.mp hlt
      obtain ⟨hwrites, hvalue⟩ := Numeral.writes_text hn
      have hprint : Expr.print (.num n) = .ok (Numeral.text n) := by
        rw [print, Numeral.writeInt, if_pos (by simpa using hn)]
        rfl
      have hnum := IsOperand.number (Numeral.text n)
      rw [hvalue] at hnum
      exact ⟨_, _, hprint, hwrites, hnum⟩
  | var x => exact ⟨x, _, rfl, .identifier h, .var x⟩
  | binary l op r => exact h.elim
  | foreign f => exact h.elim

theorem Expr.exists_print {e : Expr} (h : e.WellFormed) :
    ∃ s ws, e.print = .ok s ∧ Writes s ws ∧ IsExpression ws e := by
  cases e with
  | binary l op r =>
      obtain ⟨hl, ⟨o, rfl⟩, hr⟩ := h
      obtain ⟨s, us, hs, hwl, hdl⟩ := exists_print_operand hl
      obtain ⟨t, vs, ht, hwr, hdr⟩ := exists_print_operand hr
      refine ⟨s ++ " " ++ o.symbol ++ " " ++ t, us ++ .operator o :: vs, ?_, ?_, .binary o hdl hdr⟩
      · rw [print, hs, ht]
        rfl
      · have := (hwl.spaced (.word (.operator o))).spaced hwr
        rwa [List.append_assoc] at this
  | num n =>
      obtain ⟨s, ws, hs, hw, hd⟩ := exists_print_operand (e := .num n) h
      exact ⟨s, ws, hs, hw, .operand hd⟩
  | var x =>
      obtain ⟨s, ws, hs, hw, hd⟩ := exists_print_operand (e := .var x) h
      exact ⟨s, ws, hs, hw, .operand hd⟩
  | foreign f => exact h.elim

theorem Condition.exists_print {c : Condition} (h : c.WellFormed) :
    ∃ s ws, c.print = .ok s ∧ Writes s ws ∧ IsCondition ws c := by
  obtain ⟨l, op, r⟩ := c
  obtain ⟨hl, ⟨o, rfl⟩, hr⟩ := h
  obtain ⟨s, us, hs, hwl, hdl⟩ := Expr.exists_print hl
  obtain ⟨t, vs, ht, hwr, hdr⟩ := Expr.exists_print hr
  refine ⟨s ++ " " ++ o.symbol ++ " " ++ t, us ++ .comparison o :: vs, ?_, ?_,
    .comparison o hdl hdr⟩
  · rw [print, hs, ht]
    rfl
  · have := (hwl.spaced (.word (.comparison o))).spaced hwr
    rwa [List.append_assoc] at this

/-! ### Statements -/

theorem Writes.semicolon {s : String} {ws : List Word} (h : Writes s ws) :
    Writes (s ++ ";") (ws ++ [.semicolon]) :=
  h.sign .semicolon rfl (by decide)

namespace Stmt

theorem exists_printSimple_assign {x : String} {e : Expr} (hx : Word.IsIdentifier x)
    (he : e.WellFormed) : ∃ s ws, (assign x e).printSimple = .ok s ∧ Writes s ws ∧
      IsAssignment ws (assign x e) := by
  obtain ⟨s, ws, hs, hw, hd⟩ := Expr.exists_print he
  have hwrites := (((Writes.identifier hx).spaced (.word .assign)).spaced hw).semicolon
  refine ⟨_, _, ?_, hwrites, ?_⟩
  · rw [printSimple, hs]
    have htext : x ++ " := " ++ s ++ ";" = x ++ " " ++ Word.assign.text ++ " " ++ s ++ ";" := by
      simp [String.ext_iff, Word.assign]
    rw [← htext]
    rfl
  · simpa using IsAssignment.assign x hd

/-- All statements of the GOTO language stand on one line. -/
theorem exists_printSimple {s : Stmt} (h : s.WellFormed .goto) :
    ∃ t ws, s.printSimple = .ok t ∧ Writes t ws ∧ IsStatement .goto ws s := by
  cases s with
  | assign x e =>
      obtain ⟨t, ws, ht, hw, hd⟩ := exists_printSimple_assign h.1 h.2
      exact ⟨t, ws, ht, hw, .assignment hd⟩
  | goto x =>
      have hwrites := ((Writes.keyword (k := "GOTO") (by decide)).spaced
        (.identifier h.2)).semicolon
      refine ⟨_, _, ?_, hwrites, .goto x⟩
      have htext : "GOTO " ++ x ++ ";" = "GOTO" ++ " " ++ x ++ ";" := by simp
      rw [← htext]
      rfl
  | ifGoto c x =>
      obtain ⟨t, ws, ht, hw, hd⟩ := Condition.exists_print h.2.1
      have hwrites := (((((Writes.keyword (k := "IF") (by decide)).spaced hw).spaced
        (.keyword (k := "THEN") (by decide))).spaced
        (.keyword (k := "GOTO") (by decide))).spaced (.identifier h.2.2)).semicolon
      refine ⟨_, _, ?_, hwrites, ?_⟩
      · rw [printSimple, ht]
        have htext : "IF " ++ t ++ " THEN GOTO " ++ x ++ ";" =
            "IF" ++ " " ++ t ++ " " ++ "THEN" ++ " " ++ "GOTO" ++ " " ++ x ++ ";" := by
          simp [String.ext_iff]
        rw [← htext]
        rfl
      · simpa using IsStatement.ifThenGoto x hd
  | halt =>
      have hwrites := (Writes.keyword (k := "HALT") (by decide)).semicolon
      exact ⟨_, _, rfl, hwrites, .halt⟩
  | loop x body => exact nomatch h.1
  | whileDo c body => exact nomatch h.1
  | ifThen c t e =>
      cases e with
      | none => exact nomatch h.1
      | some e => exact nomatch h.1
  | foreign f => exact h.elim

/-- The block has lines that are written for it. -/
def HasLines (indent : String) (l : Language) (ss : List Stmt) : Prop :=
  ∀ depth, ∃ ls ws, linesOfBlock indent depth ss = .ok ls ∧ WritesLines ls ws ∧ IsBlock l ws ss

section lines

variable {indent : String} {l : Language}

theorem hasLines_cons {s : Stmt} {rest : List Stmt}
    (hs : ∀ depth, ∃ ls ws, s.lines indent depth = .ok ls ∧ WritesLines ls ws ∧ IsStatement l ws s)
    (hrest : HasLines indent l rest) : HasLines indent l (s :: rest) := by
  intro depth
  obtain ⟨ls, us, hls, hw, hd⟩ := hs depth
  obtain ⟨ks, vs, hks, hw', hd'⟩ := hrest depth
  refine ⟨ls ++ ks, us ++ vs, ?_, hw.append hw', .cons hd hd'⟩
  rw [linesOfBlock, hls, hks]
  rfl

theorem isBlank_of_mem_indentation (hindent : ∀ c ∈ indent.toList, isBlank c = true)
    (depth : Nat) : ∀ c ∈ (indentation indent depth).toList, isBlank c = true := by
  induction depth with
  | zero => exact nofun
  | succ depth ih =>
      have hsplit : (indentation indent (depth + 1)).toList =
          indent.toList ++ (indentation indent depth).toList := by
        simp [indentation, List.replicate_succ]
      rw [hsplit, List.forall_mem_append]
      exact ⟨hindent, ih⟩

variable (hindent : ∀ c ∈ indent.toList, isBlank c = true)
include hindent

theorem writes_indented {s : String} {ws : List Word} (depth : Nat) (h : Writes s ws) :
    Writes (indentation indent depth ++ s) ws :=
  h.blanks (isBlank_of_mem_indentation hindent depth)

theorem hasLines_cons_simple {s : Stmt} {rest : List Stmt}
    (hlines : ∀ depth, s.lines indent depth = (do
      let line ← s.printSimple
      return [indentation indent depth ++ line]))
    (hs : ∃ t ws, s.printSimple = .ok t ∧ Writes t ws ∧ IsStatement l ws s)
    (hrest : HasLines indent l rest) : HasLines indent l (s :: rest) := by
  obtain ⟨t, ws, ht, hw, hd⟩ := hs
  refine hasLines_cons (fun depth => ?_) hrest
  refine ⟨_, ws, ?_, .line (writes_indented hindent depth hw), hd⟩
  rw [hlines, ht]
  rfl

theorem writesLines_keyword {k : String} (depth : Nat) (hk : k ∈ Token.keywords) :
    WritesLines [indentation indent depth ++ k] [.keyword k] :=
  .line (writes_indented hindent depth (.keyword hk))

/-- A line that opens a block: a keyword, a text, and another keyword. -/
theorem writesLines_opening {k j t : String} {ws : List Word} (depth : Nat)
    (hk : k ∈ Token.keywords) (hw : Writes t ws) (hj : j ∈ Token.keywords) :
    WritesLines [indentation indent depth ++ k ++ " " ++ t ++ " " ++ j]
      (.keyword k :: (ws ++ [.keyword j])) := by
  have h := writes_indented hindent depth (((Writes.keyword hk).spaced hw).spaced (.keyword hj))
  have htext : indentation indent depth ++ (k ++ " " ++ t ++ " " ++ j) =
      indentation indent depth ++ k ++ " " ++ t ++ " " ++ j := by
    simp [String.append_assoc]
  rw [htext] at h
  exact .line h

/-- A well-formed block has lines from which it can be read back. -/
theorem hasLines_of_wellFormed {ss : List Stmt} (h : WellFormedBlock l ss) :
    HasLines indent l ss := by
  induction ss using blockInduction with
  | nil => exact fun depth => ⟨[], [], rfl, .nil, .nil l⟩
  | assign x e rest ih =>
      obtain ⟨⟨hx, he⟩, hrest⟩ := h
      obtain ⟨t, ws, ht, hw, hd⟩ := exists_printSimple_assign hx he
      exact hasLines_cons_simple hindent (fun _ => rfl) ⟨t, ws, ht, hw, .assignment hd⟩ (ih hrest)
  | loop x body rest ihb ihr =>
      obtain ⟨⟨rfl, hx, hb⟩, hrest⟩ := h
      refine hasLines_cons (fun depth => ?_) (ihr hrest)
      obtain ⟨ls, ws, hls, hw, hd⟩ := ihb hb (depth + 1)
      have hopen := writesLines_opening hindent (k := "LOOP") (j := "DO") depth (by decide)
        (.identifier hx) (by decide)
      have hclose := writesLines_keyword hindent (k := "END") depth (by decide)
      refine ⟨_, _, ?_, (hopen.append hw).append hclose, ?_⟩
      · rw [lines, hls]
        refine congrArg Except.ok ?_
        simp [String.ext_iff]
      · simpa using IsStatement.loop x hd
  | whileDo c body rest ihb ihr =>
      obtain ⟨⟨rfl, hc, hb⟩, hrest⟩ := h
      refine hasLines_cons (fun depth => ?_) (ihr hrest)
      obtain ⟨t, us, ht, hwt, hdc⟩ := Condition.exists_print hc
      obtain ⟨ls, ws, hls, hw, hd⟩ := ihb hb (depth + 1)
      have hopen := writesLines_opening hindent (k := "WHILE") (j := "DO") depth (by decide) hwt
        (by decide)
      have hclose := writesLines_keyword hindent (k := "END") depth (by decide)
      refine ⟨_, _, ?_, (hopen.append hw).append hclose, ?_⟩
      · rw [lines, ht, hls]
        refine congrArg Except.ok ?_
        simp [String.ext_iff]
      · simpa using IsStatement.whileDo hdc hd
  | ifThen c t rest iht ihr =>
      obtain ⟨⟨rfl, hc, ht⟩, hrest⟩ := h
      refine hasLines_cons (fun depth => ?_) (ihr hrest)
      obtain ⟨s, us, hs, hws, hdc⟩ := Condition.exists_print hc
      obtain ⟨ls, ws, hls, hw, hd⟩ := iht ht (depth + 1)
      have hopen := writesLines_opening hindent (k := "IF") (j := "THEN") depth (by decide) hws
        (by decide)
      have hclose := writesLines_keyword hindent (k := "END") depth (by decide)
      refine ⟨_, _, ?_, (hopen.append hw).append hclose, ?_⟩
      · rw [lines, hs, hls]
        refine congrArg Except.ok ?_
        simp [String.ext_iff]
      · simpa using IsStatement.ifThen hdc hd
  | ifElse c t e rest iht ihe ihr =>
      obtain ⟨⟨rfl, hc, ht, he⟩, hrest⟩ := h
      refine hasLines_cons (fun depth => ?_) (ihr hrest)
      obtain ⟨s, us, hs, hws, hdc⟩ := Condition.exists_print hc
      obtain ⟨ls, ws, hls, hw, hd⟩ := iht ht (depth + 1)
      obtain ⟨ks, vs, hks, hw', hd'⟩ := ihe he (depth + 1)
      have hopen := writesLines_opening hindent (k := "IF") (j := "THEN") depth (by decide) hws
        (by decide)
      have helse := writesLines_keyword hindent (k := "ELSE") depth (by decide)
      have hclose := writesLines_keyword hindent (k := "END") depth (by decide)
      refine ⟨_, _, ?_, (((hopen.append hw).append helse).append hw').append hclose, ?_⟩
      · rw [lines, hs, hls, hks]
        refine congrArg Except.ok ?_
        simp [String.ext_iff]
      · simpa using IsStatement.ifElse hdc hd hd'
  | goto x rest ih =>
      obtain ⟨hs, hrest⟩ := h
      obtain rfl := hs.1
      exact hasLines_cons_simple hindent (fun _ => rfl) (exists_printSimple hs) (ih hrest)
  | ifGoto c x rest ih =>
      obtain ⟨hs, hrest⟩ := h
      obtain rfl := hs.1
      exact hasLines_cons_simple hindent (fun _ => rfl) (exists_printSimple hs) (ih hrest)
  | halt rest ih =>
      obtain ⟨hs, hrest⟩ := h
      obtain rfl := hs
      exact hasLines_cons_simple hindent (fun _ => rfl) (exists_printSimple rfl) (ih hrest)
  | foreign f rest ih => exact h.1.elim

end lines

end Stmt

/-! ### Instructions -/

namespace Instruction

theorem isBlank_of_mem_replicate (n : Nat) :
    ∀ c ∈ (String.ofList (List.replicate n ' ')).toList, isBlank c = true := by
  intro c hc
  rw [String.toList_ofList] at hc
  rw [List.eq_of_mem_replicate hc]
  decide

theorem exists_line (width : Nat) {i : Instruction} (h : i.WellFormed) :
    ∃ s ws, i.line width = .ok s ∧ Writes s ws ∧ IsInstruction ws i := by
  obtain ⟨st, label⟩ := i
  obtain ⟨t, ws, ht, hw, hd⟩ := Stmt.exists_printSimple h.statement
  have hline : line width ⟨st, label⟩ = .ok (padded width (mark ⟨st, label⟩) ++ t) := by
    rw [line, ht]
    rfl
  cases label with
  | none =>
      refine ⟨_, ws, hline, ?_, .unlabelled hd⟩
      have hpadded : padded width (mark ⟨st, none⟩) = String.ofList (List.replicate width ' ') := by
        simp [padded, mark]
      rw [hpadded]
      exact hw.blanks (isBlank_of_mem_replicate width)
  | some x =>
      have hx : Word.IsIdentifier x := h.label x rfl
      have hne : x ≠ "" := by
        rintro rfl
        obtain ⟨_, _, hnil, _⟩ := hx.alphanumeric
        cases hnil
      refine ⟨_, .identifier x :: .colon :: ws, hline, ?_, .labelled x hd⟩
      -- Behind the colon stand one blank and those which fill the label up.
      have hlabel := ((Writes.identifier hx).sign .colon rfl (by decide)).spaced
        (hw.blanks (isBlank_of_mem_replicate (width - (x ++ ": ").length)))
      have htext : padded width (mark ⟨st, some x⟩) ++ t =
          x ++ Word.colon.text ++ " " ++
            (String.ofList (List.replicate (width - (x ++ ": ").length) ' ') ++ t) := by
        have hmark : mark ⟨st, some x⟩ = x ++ ": " := if_neg hne
        rw [hmark, padded]
        simp [String.ext_iff, Word.colon]
      rw [htext]
      exact hlabel

theorem exists_lines (width : Nat) {is : List Instruction} (h : ∀ i ∈ is, i.WellFormed) :
    ∃ ls ws, is.mapM (line width) = .ok ls ∧ WritesLines ls ws ∧ IsInstructions ws is := by
  induction is with
  | nil => exact ⟨[], [], rfl, .nil, .nil⟩
  | cons i is ih =>
      rw [List.forall_mem_cons] at h
      obtain ⟨s, us, hs, hw, hd⟩ := exists_line width h.1
      obtain ⟨ls, ws, hls, hw', hd'⟩ := ih h.2
      refine ⟨s :: ls, us ++ ws, ?_, .cons hw hw', .cons hd hd'⟩
      rw [List.mapM_cons, hs, hls]
      rfl

end Instruction

/-! ### Programs -/

namespace Program

variable {l : Language} {p : Program} {indent : String}

theorem exists_lines (hindent : ∀ c ∈ indent.toList, isBlank c = true) (h : p.WellFormed l) :
    ∃ ls ws, p.lines indent = .ok ls ∧ WritesLines ls ws ∧ IsProgram l ws p := by
  cases p with
  | loop ss =>
      obtain ⟨rfl, hss⟩ := h
      obtain ⟨ls, ws, hls, hw, hd⟩ := Stmt.hasLines_of_wellFormed hindent hss 0
      exact ⟨ls, ws, hls, hw, .loop hd⟩
  | whileDo ss =>
      obtain ⟨rfl, hss⟩ := h
      obtain ⟨ls, ws, hls, hw, hd⟩ := Stmt.hasLines_of_wellFormed hindent hss 0
      exact ⟨ls, ws, hls, hw, .whileDo hd⟩
  | goto is =>
      obtain ⟨rfl, his⟩ := h
      obtain ⟨ls, ws, hls, hw, hd⟩ := Instruction.exists_lines (Instruction.markWidth is) his
      exact ⟨ls, ws, hls, hw, .goto hd⟩

/-- A well-formed program is read back from its printed text. -/
theorem parse_of_print (hindent : ∀ c ∈ indent.toList, isBlank c = true) (h : p.WellFormed l) :
    ∃ code, p.print indent = .ok code ∧ parse l code = .ok p := by
  obtain ⟨ls, ws, hls, hw, hd⟩ := exists_lines hindent h
  have hspells := hw.spells [] [] .nil
  rw [List.append_nil, List.append_nil] at hspells
  obtain ⟨_, _, hparse, _⟩ := parse_of_spells hspells hw.readable hd
  refine ⟨_, ?_, hparse⟩
  rw [print, hls]
  rfl

/-- Printing is a right inverse of parsing, and the programs that are read from texts are exactly
the well-formed ones. -/
theorem parse_print (l : Language) :
    (∀ text p, parse l text = .ok p → p.WellFormed l) ∧
      ∀ p indent, p.WellFormed l → (∀ c ∈ indent.toList, isBlank c = true) →
        ∃ code, p.print indent = .ok code ∧ parse l code = .ok p :=
  ⟨fun _ _ => wellFormed_of_parse, fun _ _ h hindent => parse_of_print hindent h⟩

/-- An empty alternative beside an absent one, indented by a tabulator and an ideographic space. -/
theorem parse_print_alternatives :
    ∃ code, (whileDo [.ifThen ⟨.var "a", "<=", .binary (.num 0) "+" (.var "b2")⟩ [] (some []),
        .ifThen ⟨.num 7, "!=", .var "a"⟩ [.assign "a" (.num 7)] none]).print "\t\u3000" = .ok code ∧
      parse .whileDo code =
        .ok (whileDo [.ifThen ⟨.var "a", "<=", .binary (.num 0) "+" (.var "b2")⟩ [] (some []),
          .ifThen ⟨.num 7, "!=", .var "a"⟩ [.assign "a" (.num 7)] none]) :=
  (parse_print .whileDo).2 _ "\t\u3000" (by decide +kernel) (List.all_eq_true.mp (by decide))

end Program

end CounterPrograms
