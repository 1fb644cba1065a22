import CounterPrograms.Proofs.Compile.WellFormed
import CounterPrograms.CommandLine.Runner
import CounterPrograms.Proofs.Labels.Checks
import CounterPrograms.Proofs.Program.Proper
import CounterPrograms.Proofs.Text.Lines
import CounterPrograms.Service.Reply
import Mathlib.Data.List.Sort

/-!
# The report on labels

What a check of labels is to report, said without the check: an instruction is at fault if it
carries a label that an instruction before it carries already (`Labels.IsDuplicate`), or if it jumps
to a label that no instruction carries (`Labels.IsMissing`).  A report lists all faults of the first
kind and then all of the second, each list in the order of the instructions (`Labels.IsReport`);
there is only one such report (`Labels.IsReport.unique`).

`Labels.problems` is the report (`Labels.isReport_problems`), and the service tells it line by line
(`Program.label_problems_reported`).
-/

namespace CounterPrograms

namespace Labels

/-! ### Reports -/

/-- The label of the instruction at a position counted from zero. -/
def labelAt? (is : List Instruction) (k : Nat) : Option String :=
  is[k]?.bind Instruction.label

/-- The instruction at position `j` is the first to carry `l`. -/
structure IsFirst (is : List Instruction) (l : String) (j : Nat) : Prop where
  label : labelAt? is j = some l
  before : ∀ i < j, labelAt? is i ≠ some l

/-- An instruction carries a label that another one has carried before.  The first one to carry it
is named; in the report instructions are counted from one. -/
inductive IsDuplicate (is : List Instruction) : Problem → Prop
  | mk {j k : Nat} {l : String} : labelAt? is k = some l → IsFirst is l j → j < k →
      IsDuplicate is (.duplicate (k + 1) l (j + 1))

/-- An instruction jumps to a label that no instruction carries. -/
inductive IsMissing (is : List Instruction) : Problem → Prop
  | mk {k : Nat} {i : Instruction} {l : String} : is[k]? = some i →
      i.statement.jumpTarget? = some l → l ∉ names is → IsMissing is (.missing (k + 1) l)

/-- The position of the instruction at fault. -/
def Problem.position : Problem → Nat
  | duplicate position _ _ => position
  | missing position _ => position

/-- The problems of a kind, at most one for each instruction and in the order of these. -/
structure Lists (kind : Problem → Prop) (ps : List Problem) : Prop where
  mem_iff : ∀ x, x ∈ ps ↔ kind x
  increasing : (ps.map Problem.position).Pairwise (· < ·)

/-- All repeated labels, and then all jumps without target. -/
def IsReport (is : List Instruction) (ps : List Problem) : Prop :=
  ∃ repeated missing, ps = repeated ++ missing ∧ Lists (IsDuplicate is) repeated ∧
    Lists (IsMissing is) missing

theorem Lists.unique {kind : Problem → Prop} {ps qs : List Problem} (hp : Lists kind ps)
    (hq : Lists kind qs) : ps = qs := by
  have : Std.Irrefl fun x y : Problem => x.position < y.position :=
    ⟨fun x => Nat.lt_irrefl x.position⟩
  have : Std.Antisymm fun x y : Problem => x.position < y.position :=
    ⟨fun _ _ h h' => absurd h' (Nat.lt_asymm h)⟩
  exact (List.pairwise_map.mp hp.increasing).eq_of_mem_iff (List.pairwise_map.mp hq.increasing)
    fun x => (hp.mem_iff x).trans (hq.mem_iff x).symm

/-- There is one report only. -/
theorem IsReport.unique {is : List Instruction} {ps qs : List Problem} (hp : IsReport is ps)
    (hq : IsReport is qs) : ps = qs := by
  obtain ⟨_, _, rfl, hr, hm⟩ := hp
  obtain ⟨_, _, rfl, hr', hm'⟩ := hq
  rw [hr.unique hr', hm.unique hm']

/-! ### Positions -/

theorem sublist_carried (base : Nat) (is : List Instruction) :
    ((carried base is).map Prod.snd).Sublist (List.range' base is.length) := by
  induction is generalizing base with
  | nil => exact .slnil
  | cons i is ih =>
      rw [carried, List.length_cons, List.range'_succ]
      cases i.label with
      | none => exact (ih (base + 1)).cons base
      | some l => exact (ih (base + 1)).cons_cons base

theorem sublist_duplicates (seen xs : List (String × Nat)) :
    ((duplicates seen xs).map Problem.position).Sublist (xs.map Prod.snd) := by
  induction xs generalizing seen with
  | nil => exact .slnil
  | cons x xs ih =>
      obtain ⟨l, p⟩ := x
      rw [duplicates]
      cases seen.lookup l with
      | none => exact (ih _).cons p
      | some first => exact (ih seen).cons_cons p

theorem sublist_missing (labels : List String) (base : Nat) (is : List Instruction) :
    ((missing labels base is).map Problem.position).Sublist (List.range' base is.length) := by
  induction is generalizing base with
  | nil => exact .slnil
  | cons i is ih =>
      rw [missing, List.length_cons, List.range'_succ]
      cases i.statement.jumpTarget? with
      | none => exact (ih (base + 1)).cons base
      | some l =>
          by_cases hl : l ∈ labels
          · simp only [hl, if_true]
            exact (ih (base + 1)).cons base
          · simp only [hl, if_false]
            exact (ih (base + 1)).cons_cons base

/-! ### Jumps without target -/

theorem mem_missing_iff {labels : List String} {base : Nat} {is : List Instruction} {x : Problem} :
    x ∈ missing labels base is ↔
      ∃ k i l, is[k]? = some i ∧ i.statement.jumpTarget? = some l ∧ l ∉ labels ∧
        x = .missing (base + k) l := by
  induction is generalizing base with
  | nil => simp [missing]
  | cons i is ih =>
      -- What is at fault is the first instruction or one behind it.
      have hcons : (∃ k j l, (i :: is)[k]? = some j ∧ j.statement.jumpTarget? = some l ∧
            l ∉ labels ∧ x = .missing (base + k) l) ↔
          (∃ l, i.statement.jumpTarget? = some l ∧ l ∉ labels ∧ x = .missing base l) ∨
            x ∈ missing labels (base + 1) is := by
        rw [ih]
        constructor
        · rintro ⟨k, j, l, hj, hl, hout, rfl⟩
          cases k with
          | zero =>
              obtain rfl : i = j := Option.some.inj hj
              exact .inl ⟨l, hl, hout, rfl⟩
          | succ k => exact .inr ⟨k, j, l, hj, hl, hout, by rw [Nat.add_assoc, Nat.add_comm 1]⟩
        · rintro (⟨l, hl, hout, rfl⟩ | ⟨k, j, l, hj, hl, hout, rfl⟩)
          · exact ⟨0, i, l, rfl, hl, hout, rfl⟩
          · exact ⟨k + 1, j, l, hj, hl, hout, by rw [Nat.add_assoc, Nat.add_comm 1]⟩
      rw [hcons, missing]
      cases i.statement.jumpTarget? with
      | none => simp
      | some l => by_cases hl : l ∈ labels <;> simp [hl]

theorem lists_missing (is : List Instruction) :
    Lists (IsMissing is) (missing (names is) 1 is) := by
  refine ⟨fun x => ?_, (List.pairwise_lt_range' 1).sublist (sublist_missing _ 1 is)⟩
  rw [mem_missing_iff]
  constructor
  · rintro ⟨k, i, l, hi, hl, hout, rfl⟩
    rw [Nat.add_comm]
    exact .mk hi hl hout
  · rintro ⟨hi, hl, hout⟩
    exact ⟨_, _, _, hi, hl, hout, by rw [Nat.add_comm]⟩

/-! ### Repeated labels -/

theorem carried_append (base : Nat) (is js : List Instruction) :
    carried base (is ++ js) = carried base is ++ carried (base + is.length) js := by
  induction is generalizing base with
  | nil => rfl
  | cons i is ih =>
      have hbase : base + (i :: is).length = base + 1 + is.length := by
        simp
        omega
      rw [List.cons_append, carried, carried, ih, hbase]
      cases i.label <;> rfl

theorem lt_length_of_labelAt? {is : List Instruction} {k : Nat} {l : String}
    (h : labelAt? is k = some l) : k < is.length := by
  obtain ⟨i, hi, _⟩ := Option.bind_eq_some_iff.mp h
  exact (List.getElem?_eq_some_iff.mp hi).1

theorem labelAt?_append_cons (is js : List Instruction) (i : Instruction) :
    labelAt? (is ++ i :: js) is.length = i.label := by
  simp [labelAt?]

theorem isFirst_append_iff {is js : List Instruction} {l : String} {j : Nat} (h : j < is.length) :
    IsFirst (is ++ js) l j ↔ IsFirst is l j := by
  have hlabel : ∀ k ≤ j, labelAt? (is ++ js) k = labelAt? is k := by
    intro k hk
    rw [labelAt?, labelAt?, List.getElem?_append_left (Nat.lt_of_le_of_lt hk h)]
  constructor
  · rintro ⟨hj, hbefore⟩
    refine ⟨hlabel j (Nat.le_refl j) ▸ hj, fun k hk => ?_⟩
    exact hlabel k (Nat.le_of_lt hk) ▸ hbefore k hk
  · rintro ⟨hj, hbefore⟩
    refine ⟨(hlabel j (Nat.le_refl j)).trans hj, fun k hk => ?_⟩
    rw [hlabel k (Nat.le_of_lt hk)]
    exact hbefore k hk

theorem lookup_carried_eq_some_iff {base p : Nat} {is : List Instruction} {l : String} :
    (carried base is).lookup l = some p ↔ ∃ j, IsFirst is l j ∧ p = base + j := by
  induction is generalizing base with
  | nil =>
      constructor
      · exact fun h => nomatch h
      · rintro ⟨j, ⟨h, _⟩, _⟩
        cases h
  | cons i is ih =>
      have hcons : (∃ j, IsFirst (i :: is) l j ∧ p = base + j) ↔
          (i.label = some l ∧ p = base) ∨
            (i.label ≠ some l ∧ ∃ j, IsFirst is l j ∧ p = base + 1 + j) := by
        constructor
        · rintro ⟨j, ⟨hj, hbefore⟩, rfl⟩
          cases j with
          | zero => exact .inl ⟨hj, rfl⟩
          | succ j =>
              refine .inr ⟨hbefore 0 (Nat.succ_pos j), j, ⟨hj, fun k hk => ?_⟩, by omega⟩
              exact hbefore (k + 1) (Nat.succ_lt_succ hk)
        · rintro (⟨hi, rfl⟩ | ⟨hi, j, ⟨hj, hbefore⟩, rfl⟩)
          · exact ⟨0, ⟨hi, fun _ hk => absurd hk (Nat.not_lt_zero _)⟩, rfl⟩
          · refine ⟨j + 1, ⟨hj, fun k hk => ?_⟩, by omega⟩
            cases k with
            | zero => exact hi
            | succ k => exact hbefore k (Nat.lt_of_succ_lt_succ hk)
      rw [hcons, carried]
      cases hi : i.label with
      | none => simpa using ih
      | some k =>
          by_cases hk : l = k
          · subst hk
            simp [eq_comm]
          · have hne : k ≠ l := fun h => hk h.symm
            simp only [List.lookup_cons, beq_eq_false_iff_ne.mpr hk, Option.some.injEq, hne, ne_eq,
              not_false_eq_true, true_and, false_and, false_or]
            exact ih

/-- One more instruction adds its label to those that are found, unless it was found before. -/
theorem lookup_carried_concat (base : Nat) (is : List Instruction) (i : Instruction) (l : String) :
    (carried base (is ++ [i])).lookup l =
      ((carried base is).lookup l).or
        (if i.label = some l then some (base + is.length) else none) := by
  rw [carried_append, List.lookup_append, carried]
  cases i.label with
  | none => simp [carried]
  | some k =>
      by_cases hk : l = k
      · simp [hk]
      · have hne : k ≠ l := fun h => hk h.symm
        simp [carried, List.lookup_cons, beq_eq_false_iff_ne.mpr hk, hne]

theorem isDuplicate_here_iff (done rest : List Instruction) (i : Instruction) {x : Problem} :
    IsDuplicate (done ++ i :: rest) x ∧ x.position = done.length + 1 ↔
      ∃ l p, i.label = some l ∧ (carried 1 done).lookup l = some p ∧
        x = .duplicate (done.length + 1) l p := by
  constructor
  · rintro ⟨⟨hk, hfirst, hlt⟩, hpos⟩
    obtain rfl := Nat.succ.inj hpos
    rw [labelAt?_append_cons] at hk
    have hfirst' := (isFirst_append_iff hlt).mp hfirst
    refine ⟨_, _, hk, lookup_carried_eq_some_iff.mpr ⟨_, hfirst', rfl⟩, ?_⟩
    rw [Nat.add_comm 1]
  · rintro ⟨l, p, hl, hp, rfl⟩
    obtain ⟨j, hfirst, rfl⟩ := lookup_carried_eq_some_iff.mp hp
    have hlt : j < done.length := lt_length_of_labelAt? hfirst.label
    rw [Nat.add_comm 1]
    refine ⟨.mk ?_ ((isFirst_append_iff hlt).mpr hfirst) hlt, rfl⟩
    rw [labelAt?_append_cons, hl]

/-- Of the instructions `done ++ rest`, those in `rest` are still to be checked, and `seen` tells
where the labels of those in `done` were carried first. -/
theorem mem_duplicates_iff (done rest : List Instruction) {seen : List (String × Nat)}
    (hseen : ∀ l, seen.lookup l = (carried 1 done).lookup l) {x : Problem} :
    x ∈ duplicates seen (carried (done.length + 1) rest) ↔
      IsDuplicate (done ++ rest) x ∧ done.length < x.position := by
  induction rest generalizing done seen with
  | nil =>
      simp only [carried, duplicates, List.not_mem_nil, List.append_nil, false_iff, not_and]
      rintro ⟨hk, _, _⟩ hlt
      exact absurd (lt_length_of_labelAt? hk) (Nat.not_lt.mpr (Nat.le_of_lt_succ hlt))
  | cons i rest ih =>
      -- The instruction at fault is the next one or one behind it.
      have hsplit : IsDuplicate (done ++ i :: rest) x ∧ done.length < x.position ↔
          (∃ l p, i.label = some l ∧ seen.lookup l = some p ∧
            x = .duplicate (done.length + 1) l p) ∨
          IsDuplicate (done ++ [i] ++ rest) x ∧ (done ++ [i]).length < x.position := by
        simp only [hseen, ← isDuplicate_here_iff done rest i, List.append_assoc,
          List.singleton_append, List.length_append, List.length_singleton]
        rw [← and_or_left]
        refine and_congr_right fun _ => ?_
        omega
      have hdone : ∀ k, (carried 1 (done ++ [i])).lookup k =
          (seen.lookup k).or (if i.label = some k then some (done.length + 1) else none) := by
        intro k
        rw [lookup_carried_concat, hseen, Nat.add_comm 1]
      have hlength : (done ++ [i]).length = done.length + 1 := List.length_append
      rw [hsplit, carried]
      cases hi : i.label with
      | none =>
          have hseen' : ∀ k, seen.lookup k = (carried 1 (done ++ [i])).lookup k := by
            intro k
            simp [hdone, hi]
          rw [← ih _ hseen', hlength]
          simp
      | some l =>
          simp only [duplicates]
          cases hl : seen.lookup l with
          | some first =>
              have hseen' : ∀ k, seen.lookup k = (carried 1 (done ++ [i])).lookup k := by
                intro k
                rw [hdone, hi]
                by_cases hk : l = k
                · simp [← hk, hl]
                · simp [hk]
              rw [← ih _ hseen', hlength]
              simp [hl]
          | none =>
              have hseen' : ∀ k, ((l, done.length + 1) :: seen).lookup k =
                  (carried 1 (done ++ [i])).lookup k := by
                intro k
                rw [hdone, hi]
                by_cases hk : l = k
                · simp [← hk, hl]
                · simp [hk, List.lookup_cons, beq_eq_false_iff_ne.mpr (Ne.symm hk)]
              rw [← ih _ hseen', hlength]
              simp [hl]

theorem lists_duplicates (is : List Instruction) :
    Lists (IsDuplicate is) (duplicates [] (carried 1 is)) := by
  refine ⟨fun x => ?_, ?_⟩
  · have hmem : x ∈ duplicates [] (carried 1 is) ↔ IsDuplicate is x ∧ 0 < x.position :=
      mem_duplicates_iff [] is fun _ => rfl
    rw [hmem, and_iff_left_iff_imp]
    rintro ⟨_, _, _⟩
    exact Nat.succ_pos _
  · have hsublist := (sublist_duplicates [] (carried 1 is)).trans (sublist_carried 1 is)
    exact (List.pairwise_lt_range' 1).sublist hsublist

/-- What a check of labels finds is the report. -/
theorem isReport_problems (is : List Instruction) : IsReport is (problems is) := by
  refine ⟨_, _, rfl, lists_duplicates is, ?_⟩
  rw [map_fst_carried]
  exact lists_missing is

/-! ### Lines -/

theorem newline_not_mem_text (n : Nat) : '\n' ∉ (Numeral.text n).toList := by
  intro h
  rw [Numeral.toList_text] at h
  have hdigit : '\n'.isDigit = true := Numeral.isDigit_of_mem_digits h
  cases hdigit

theorem newline_not_mem_of_isIdentifier {l : String} (h : Word.IsIdentifier l) :
    '\n' ∉ l.toList := by
  intro hmem
  obtain ⟨c, cs, hl, hc, hcs⟩ := h.alphanumeric
  rw [hl] at hmem
  rcases List.mem_cons.mp hmem with rfl | hmem
  · cases hc
  · cases hcs _ hmem

theorem newline_not_mem_duplicate {l : String} (h : Word.IsIdentifier l) (k j : Nat) :
    '\n' ∉ (Problem.duplicate k l j).message.toList := by
  have hl := newline_not_mem_of_isIdentifier h
  have hk := newline_not_mem_text k
  have hj := newline_not_mem_text j
  unfold Problem.message
  simp only [String.toList_append, List.mem_append, hk, hl, hj, or_false]
  decide

theorem newline_not_mem_missing {l : String} (h : Word.IsIdentifier l) (k : Nat) :
    '\n' ∉ (Problem.missing k l).message.toList := by
  have hl := newline_not_mem_of_isIdentifier h
  have hk := newline_not_mem_text k
  unfold Problem.message
  simp only [String.toList_append, List.mem_append, hk, hl, or_false]
  decide

theorem isIdentifier_of_labelAt? {is : List Instruction} (hw : ∀ i ∈ is, i.WellFormed) {k : Nat}
    {l : String} (h : labelAt? is k = some l) : Word.IsIdentifier l := by
  obtain ⟨i, hi, hl⟩ := Option.bind_eq_some_iff.mp h
  exact (hw i (List.mem_of_getElem? hi)).label l hl

theorem isIdentifier_of_jumpTarget? {i : Instruction} (hw : i.WellFormed) {l : String}
    (h : i.statement.jumpTarget? = some l) : Word.IsIdentifier l := by
  have hst := hw.statement
  obtain ⟨st, label⟩ := i
  cases st with
  | goto x =>
      obtain rfl := Option.some.inj h
      exact hst.2
  | ifGoto c x =>
      obtain rfl := Option.some.inj h
      exact hst.2.2
  | assign | loop | whileDo | ifThen | halt | foreign => cases h

theorem IsReport.newline_not_mem {is : List Instruction} {ps : List Problem}
    (hw : ∀ i ∈ is, i.WellFormed) (h : IsReport is ps) {x : Problem} (hx : x ∈ ps) :
    '\n' ∉ x.message.toList := by
  obtain ⟨_, _, rfl, hr, hm⟩ := h
  rcases List.mem_append.mp hx with hx | hx
  · obtain ⟨hk, _, _⟩ := (hr.mem_iff x).mp hx
    exact newline_not_mem_duplicate (isIdentifier_of_labelAt? hw hk) _ _
  · obtain ⟨hi, hl, _⟩ := (hm.mem_iff x).mp hx
    exact newline_not_mem_missing
      (isIdentifier_of_jumpTarget? (hw _ (List.mem_of_getElem? hi)) hl) _

theorem splitOn_message {ps : List Problem} (hne : ps ≠ [])
    (h : ∀ x ∈ ps, '\n' ∉ x.message.toList) :
    (message ps).splitOn "\n" = ps.map Problem.message := by
  refine Lines.splitOn_intercalate (List.map_eq_nil_iff.not.mpr hne) ?_
  simpa using h

end Labels

/-! ### Whoever asks for the check -/

theorem Service.checkProgram_goto {text : String} {p : Program}
    (h : Program.parse .goto text = .ok p) :
    (Labels.problems p.instructions = [] → ∃ fields, checkProgram .goto text = success fields) ∧
    (Labels.problems p.instructions ≠ [] →
      checkProgram .goto text = failure (Labels.message (Labels.problems p.instructions))) := by
  obtain ⟨ts, hts⟩ := tokensAndProgram_of_parse h
  constructor
  · intro hnil
    refine ⟨[("tokens", .arr (ts.map tokenJson)), ("ast", p.toJson)], ?_⟩
    simp [checkProgram, hts, hnil, told, bind, Except.bind, pure, Except.pure]
  · intro hne
    simp [checkProgram, hts, hne, told, bind, Except.bind, throw, throwThe, MonadExceptOf.throw]

theorem CommandLine.prepare_of_problems {text : String} {p : Program}
    (h : Program.parse .goto text = .ok p) (hne : Labels.problems p.instructions ≠ [])
    {i : Invocation} (hl : i.language = .goto) (hc : i.checkLabels = true) (inputs : Inputs) :
    prepare i inputs text = .error (Labels.message (Labels.problems p.instructions)) := by
  simp [prepare, hl, hc, h, hne, Except.mapError, bind, Except.bind, throw, throwThe,
    MonadExceptOf.throw]

namespace Program

/-- The check of labels finds exactly what there is to report, each fault once and in order.  If
there is nothing to report, the service says that the program is all right.  Otherwise the command
stops with the message of the check, the lines of which are the messages about the faults, and the
service answers with these lines. -/
theorem label_problems_reported {text : String} {p : Program} (hp : parse .goto text = .ok p) :
    Labels.IsReport p.instructions (Labels.problems p.instructions) ∧
    ∀ ps, Labels.IsReport p.instructions ps →
      (ps = [] → ∃ fields, Service.checkProgram .goto text = Service.success fields) ∧
      (ps ≠ [] →
        (∀ (i : Invocation) (inputs : Inputs), i.language = .goto → i.checkLabels = true →
          CommandLine.prepare i inputs text =
            .error (Labels.message (Labels.problems p.instructions))) ∧
        (Labels.message (Labels.problems p.instructions)).splitOn "\n" =
          ps.map Labels.Problem.message ∧
        Service.checkProgram .goto text =
          .obj [("success", .bool false), ("errors", .arr (ps.map fun x => .str x.message))]) := by
  have hreport := Labels.isReport_problems p.instructions
  refine ⟨hreport, fun ps hps => ?_⟩
  obtain rfl := hps.unique hreport
  obtain ⟨hsuccess, hfailure⟩ := Service.checkProgram_goto hp
  refine ⟨hsuccess, fun hne => ?_⟩
  have hcommand := fun (i : Invocation) inputs hl hc =>
    CommandLine.prepare_of_problems hp hne (i := i) hl hc inputs
  obtain ⟨is, rfl, hwell⟩ := wellFormed_of_parse_goto hp
  have hlines := Labels.splitOn_message hne fun x hx => hreport.newline_not_mem hwell hx
  refine ⟨hcommand, hlines, ?_⟩
  rw [hfailure hne, Service.failure, hlines, List.map_map]
  rfl

/-- A label that is carried three times, and jumps to two labels that are not there. -/
theorem label_problems_reported_twofold :
    ∃ p, parse .goto "a: GOTO b; a: GOTO c; c: x := 1; a: IF x = 0 THEN GOTO d; HALT;" = .ok p ∧
      Labels.IsReport p.instructions
        [.duplicate 2 "a" 1, .duplicate 4 "a" 1, .missing 1 "b", .missing 4 "d"] ∧
      Service.checkProgram .goto
          "a: GOTO b; a: GOTO c; c: x := 1; a: IF x = 0 THEN GOTO d; HALT;" =
        .obj [("success", .bool false), ("errors", .arr
          [.str "Instrução 2: Rótulo 'a' já definido na instrução 1",
            .str "Instrução 4: Rótulo 'a' já definido na instrução 1",
            .str "Instrução 1: Destino de goto 'b' não existe",
            .str "Instrução 4: Destino de goto 'd' não existe"])] := by
  obtain ⟨p, hp, h⟩ : ∃ p,
      parse .goto "a: GOTO b; a: GOTO c; c: x := 1; a: IF x = 0 THEN GOTO d; HALT;" = .ok p ∧
      decide (Labels.problems p.instructions =
        [.duplicate 2 "a" 1, .duplicate 4 "a" 1, .missing 1 "b", .missing 4 "d"]) = true :=
    Except.exists_of_any (by decide +kernel)
  have hproblems := of_decide_eq_true h
  obtain ⟨hreport, htold⟩ := label_problems_reported hp
  obtain ⟨_, _, hreply⟩ := (htold _ hreport).2 (by rw [hproblems]; exact List.cons_ne_nil _ _)
  rw [hproblems] at hreport hreply
  exact ⟨p, hp, hreport, hreply⟩

end Program

end CounterPrograms
