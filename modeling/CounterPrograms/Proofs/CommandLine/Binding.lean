import CounterPrograms.CommandLine.Runner
import CounterPrograms.Proofs.Numeral
import CounterPrograms.Proofs.Sequence
import Mathlib.Data.List.TakeWhile

/-!
# What becomes of a binding on the command line

An argument has the form of a binding if there are a name and a value with an equals sign between
them and the characters of the value show digits (`Binding.Shows`).  If these are decimal digits, of
any script and not too many, the argument gives the number they denote (`Binding.Gives`).  If not,
it deceives (`Binding.Deceives`).  Reading tells these apart (`Binding.read_eq_ok_iff`,
`Binding.read_eq_error_iff`), but an argument that deceives is not malformed, and so, left over, it
is not refused as wrong usage but stops the command (`CommandLine.binding_refused_iff`).
-/

namespace CounterPrograms

/-! ### Arguments -/

namespace Binding

/-- A text without the minus sign at its head, if there is one. -/
def undashed : List Char → List Char
  | '-' :: rest => rest
  | text => text

/-- The argument has the form of a binding: a name and a value with an equals sign between them,
perhaps after a minus sign, and the characters of the value show digits. -/
structure Shows (argument : String) (name value : List Char) : Prop where
  text : undashed argument.toList = name ++ '=' :: value
  name_ne_nil : name ≠ []
  equals_not_mem : '=' ∉ name
  value_ne_nil : value ≠ []
  digits : ∀ c ∈ value, showsDigit c = true

/-- The argument gives the variable the number that the digits of its value denote. -/
def Gives (argument : String) (b : String × Nat) : Prop :=
  ∃ value, Shows argument b.1.toList value ∧ Numeral.IsDecimal value b.2 ∧
    value.length ≤ Numeral.limit

/-- Why a value whose characters show digits is not read. -/
inductive Unread (value : List Char) : BindingError → Prop
  | tooLong : Numeral.limit < (value.takeWhile isDecimalDigit).length →
      Unread value (.numeral (.tooManyDigits (value.takeWhile isDecimalDigit).length))
  | noNumber {c : Char} : (value.takeWhile isDecimalDigit).length ≤ Numeral.limit → c ∈ value →
      isDecimalDigit c = false → Unread value (.noNumber (String.ofList value))

/-- The argument has the form of a binding, but its value is not read. -/
def Deceives (argument : String) (e : BindingError) : Prop :=
  ∃ name value, Shows argument name value ∧ Unread value e

/-- What is read is cut at the first equals sign behind the minus sign. -/
theorem read_eq (argument : String) :
    read argument =
      match (undashed argument.toList).dropWhile (· ≠ '=') with
      | [] => .error (.malformed argument)
      | _ :: value =>
        let name := (undashed argument.toList).takeWhile (· ≠ '=')
        if name.isEmpty || value.isEmpty || !value.all showsDigit then
          .error (.malformed argument)
        else do
          let n ← readValue value
          return (String.ofList name, n) :=
  rfl

variable {argument : String} {name value : List Char} {n : Nat} {e : BindingError}

theorem Shows.read_eq (h : Shows argument name value) :
    read argument = (readValue value).map fun n => (String.ofList name, n) := by
  have hname : ∀ c ∈ name, decide (c ≠ '=') = true := by
    intro c hc
    apply decide_eq_true
    rintro rfl
    exact h.equals_not_mem hc
  have hstop : decide ('=' ≠ '=') = false := rfl
  have htake : (undashed argument.toList).takeWhile (· ≠ '=') = name := by
    rw [h.text, List.takeWhile_append_of_pos hname, List.takeWhile_cons, hstop]
    exact List.append_nil name
  have hdrop : (undashed argument.toList).dropWhile (· ≠ '=') = '=' :: value := by
    rw [h.text, List.dropWhile_append_of_pos hname, List.dropWhile_cons, hstop]
    rfl
  have hdigits : value.all showsDigit = true := List.all_eq_true.mpr h.digits
  rw [Binding.read_eq, hdrop, htake]
  simp only [List.isEmpty_eq_false_iff.mpr h.name_ne_nil,
    List.isEmpty_eq_false_iff.mpr h.value_ne_nil, hdigits]
  cases readValue value with
  | ok n => rfl
  | error e => rfl

theorem read_of_not_shows (h : ∀ name value, ¬ Shows argument name value) :
    read argument = .error (.malformed argument) := by
  rw [Binding.read_eq]
  cases hdrop : (undashed argument.toList).dropWhile (· ≠ '=') with
  | nil => rfl
  | cons c value =>
      by_cases hempty : ((undashed argument.toList).takeWhile (· ≠ '=')).isEmpty || value.isEmpty ||
          !value.all showsDigit
      · simp only [hempty]
        rfl
      · -- Nothing is wrong with the pieces, so the argument has the form of a binding.
        exfalso
        simp only [Bool.or_eq_true, Bool.not_eq_true', not_or, List.isEmpty_iff] at hempty
        obtain ⟨⟨hname, hvalue⟩, hdigits⟩ := hempty
        have hc : c = '=' := by
          have hhead := List.head?_dropWhile_not (· ≠ '=') (undashed argument.toList)
          rw [hdrop] at hhead
          exact not_not.mp (of_decide_eq_false hhead)
        have htext : (undashed argument.toList).takeWhile (· ≠ '=') ++ c :: value =
            undashed argument.toList := by
          rw [← hdrop, List.takeWhile_append_dropWhile]
        rw [hc] at htext
        refine h _ _ ⟨htext.symm, hname, fun hmem => ?_, hvalue, ?_⟩
        · have hne := List.mem_takeWhile_imp hmem
          exact of_decide_eq_true hne rfl
        · rw [Bool.not_eq_false] at hdigits
          exact List.all_eq_true.mp hdigits

theorem readValue_of_isDecimal (h : Numeral.IsDecimal value n)
    (hlimit : value.length ≤ Numeral.limit) : readValue value = .ok n := by
  have hrun : value.takeWhile isDecimalDigit = value :=
    List.takeWhile_eq_self_iff.mpr h.isDecimalDigit
  obtain ⟨digits, hdigits, hread⟩ := h.exists_plainDigits? hlimit
  unfold readValue
  rw [hrun, if_neg (Nat.not_lt.mpr hlimit), hdigits]
  simp only [hread]
  rfl

theorem Unread.readValue_eq (h : Unread value e) : readValue value = .error e := by
  unfold readValue
  cases h with
  | tooLong hlimit => rw [if_pos hlimit]
  | noNumber hlimit hc hd =>
      rw [if_neg (Nat.not_lt.mpr hlimit), Numeral.plainDigits?_eq_none hc hd]

theorem isDecimal_or_unread (value : List Char) :
    (∃ n, Numeral.IsDecimal value n ∧ value.length ≤ Numeral.limit) ∨ ∃ e, Unread value e := by
  by_cases hlimit : (value.takeWhile isDecimalDigit).length ≤ Numeral.limit
  · by_cases hdecimal : ∀ c ∈ value, isDecimalDigit c = true
    · obtain ⟨n, hn⟩ := Numeral.exists_isDecimal hdecimal
      rw [List.takeWhile_eq_self_iff.mpr hdecimal] at hlimit
      exact .inl ⟨n, hn, hlimit⟩
    · simp only [not_forall, Bool.not_eq_true] at hdecimal
      obtain ⟨c, hc, hd⟩ := hdecimal
      exact .inr ⟨_, .noNumber hlimit hc hd⟩
  · exact .inr ⟨_, .tooLong (Nat.lt_of_not_le hlimit)⟩

theorem Gives.read_eq {b : String × Nat} (h : Gives argument b) : read argument = .ok b := by
  obtain ⟨value, hshows, hn, hlimit⟩ := h
  rw [hshows.read_eq, readValue_of_isDecimal hn hlimit, String.ofList_toList]
  rfl

theorem Deceives.read_eq (h : Deceives argument e) : read argument = .error e := by
  obtain ⟨name, value, hshows, he⟩ := h
  rw [hshows.read_eq, he.readValue_eq]
  rfl

theorem Deceives.ne_malformed (h : Deceives argument e) (a : String) : e ≠ .malformed a := by
  obtain ⟨_, _, _, he⟩ := h
  cases he with
  | tooLong | noNumber =>
      intro h
      cases h

/-- An argument gives a number, or it does not have the form of a binding, or it deceives. -/
theorem gives_or_deceives (argument : String) :
    (∃ b, Gives argument b) ∨ (∀ name value, ¬ Shows argument name value) ∨
      ∃ e, Deceives argument e := by
  by_cases h : ∃ name value, Shows argument name value
  · obtain ⟨name, value, hshows⟩ := h
    rcases isDecimal_or_unread value with ⟨n, hn, hlimit⟩ | ⟨e, he⟩
    · refine .inl ⟨(String.ofList name, n), value, ?_, hn, hlimit⟩
      rwa [String.toList_ofList]
    · exact .inr (.inr ⟨e, name, value, hshows, he⟩)
  · simp only [not_exists] at h
    exact .inr (.inl h)

/-- What is read is what the argument gives. -/
theorem read_eq_ok_iff {b : String × Nat} : read argument = .ok b ↔ Gives argument b := by
  refine ⟨fun h => ?_, Gives.read_eq⟩
  rcases gives_or_deceives argument with ⟨b', hb⟩ | hnot | ⟨e, he⟩
  · rw [hb.read_eq] at h
    obtain rfl := Except.ok.inj h
    exact hb
  · rw [read_of_not_shows hnot] at h
    cases h
  · rw [he.read_eq] at h
    cases h

/-- An argument without the form of a binding is malformed; all other errors are about the value. -/
theorem read_eq_error_iff :
    read argument = .error e ↔
      (e = .malformed argument ∧ ∀ name value, ¬ Shows argument name value) ∨
        Deceives argument e := by
  constructor
  · intro h
    rcases gives_or_deceives argument with ⟨b, hb⟩ | hnot | ⟨e', he⟩
    · rw [hb.read_eq] at h
      cases h
    · rw [read_of_not_shows hnot] at h
      exact .inl ⟨(Except.error.inj h).symm, hnot⟩
    · rw [he.read_eq] at h
      exact .inr (Except.error.inj h ▸ he)
  · rintro (⟨rfl, hnot⟩ | he)
    · exact read_of_not_shows hnot
    · exact he.read_eq

/-- An argument is read as the binding it gives or refused as malformed unless it deceives. -/
theorem read_or_refused_iff :
    (∃ b, Gives argument b ∧ read argument = .ok b) ∨ read argument = .error (.malformed argument) ↔
      ∀ e, ¬ Deceives argument e := by
  constructor
  · intro h e he
    have hread := he.read_eq
    rcases h with ⟨b, -, hok⟩ | hmalformed
    · rw [hok] at hread
      cases hread
    · rw [hmalformed] at hread
      exact he.ne_malformed argument (Except.error.inj hread).symm
  · intro h
    rcases gives_or_deceives argument with ⟨b, hb⟩ | hnot | ⟨e, he⟩
    · exact .inl ⟨b, hb, hb.read_eq⟩
    · exact .inr (read_of_not_shows hnot)
    · exact absurd he (h e)

end Binding

/-! ### Arguments that are left over -/

namespace Invocation

variable {arguments before after : List String} {argument : String} {bs : List (String × Nat)}
  {e : BindingError}

theorem readLeft_append (h : List.Forall₂ Binding.Gives before bs) (rest : List String) :
    readLeft (before ++ rest) = (readLeft rest).map (bs ++ ·) := by
  induction h with
  | nil =>
      rw [List.nil_append]
      cases readLeft rest <;> rfl
  | @cons a b as bs hb _ ih =>
      rw [List.cons_append, readLeft]
      simp only [hb.read_eq, ih]
      cases readLeft rest <;> rfl

theorem readLeft_of_not_shows (h : ∀ name value, ¬ Binding.Shows argument name value)
    (after : List String) : readLeft (argument :: after) = .error .usage := by
  rw [readLeft, Binding.read_of_not_shows h]

theorem readLeft_of_deceives (h : Binding.Deceives argument e) (after : List String) :
    readLeft (argument :: after) = .error (.fault e) := by
  rw [readLeft, h.read_eq]
  cases e with
  | malformed a => exact absurd rfl (h.ne_malformed a)
  | noNumber value => rfl
  | numeral e => rfl

/-- All arguments give numbers, or the first one that does not decides. -/
theorem readLeft_cases (arguments : List String) :
    (∃ bs, List.Forall₂ Binding.Gives arguments bs ∧ readLeft arguments = .ok bs) ∨
    ∃ before bs argument after, arguments = before ++ argument :: after ∧
      List.Forall₂ Binding.Gives before bs ∧
      (((∀ name value, ¬ Binding.Shows argument name value) ∧
          readLeft arguments = .error .usage) ∨
        ∃ e, Binding.Deceives argument e ∧ readLeft arguments = .error (.fault e)) := by
  induction arguments with
  | nil => exact .inl ⟨[], .nil, rfl⟩
  | cons a as ih =>
      rcases Binding.gives_or_deceives a with ⟨b, hb⟩ | hnot | ⟨e, he⟩
      · have hread : readLeft (a :: as) = (readLeft as).map ([b] ++ ·) :=
          readLeft_append (.cons hb .nil) as
        rcases ih with ⟨bs, hbs, hok⟩ | ⟨before, bs, argument, after, rfl, hbs, hfirst⟩
        · rw [hok] at hread
          exact .inl ⟨b :: bs, .cons hb hbs, hread⟩
        · refine .inr ⟨a :: before, b :: bs, argument, after, rfl, .cons hb hbs, ?_⟩
          rcases hfirst with ⟨hnot, husage⟩ | ⟨e, he, hfault⟩
          · rw [husage] at hread
            exact .inl ⟨hnot, hread⟩
          · rw [hfault] at hread
            exact .inr ⟨e, he, hread⟩
      · exact .inr ⟨[], [], a, as, rfl, .nil, .inl ⟨hnot, readLeft_of_not_shows hnot as⟩⟩
      · exact .inr ⟨[], [], a, as, rfl, .nil, .inr ⟨e, he, readLeft_of_deceives he as⟩⟩

theorem readLeft_eq_fault_iff :
    readLeft arguments = .error (.fault e) ↔
      ∃ before bs argument after, arguments = before ++ argument :: after ∧
        List.Forall₂ Binding.Gives before bs ∧ Binding.Deceives argument e := by
  constructor
  · intro h
    rcases readLeft_cases arguments with ⟨bs, _, hok⟩ |
      ⟨before, bs, argument, after, rfl, hbs, ⟨_, husage⟩ | ⟨e', he, hfault⟩⟩
    · rw [hok] at h
      cases h
    · rw [husage] at h
      cases h
    · rw [hfault] at h
      cases h
      exact ⟨before, bs, argument, after, rfl, hbs, he⟩
  · rintro ⟨before, bs, argument, after, rfl, hbs, he⟩
    rw [readLeft_append hbs, readLeft_of_deceives he]
    rfl

/-! ### The command -/

/-- A refusal that is not a fault in a binding. -/
def Refusal.Ordinary (r : Refusal) : Prop :=
  r = .usage ∨ r = .help

theorem onlyRaises_readLanguage (name : String) :
    (readLanguage name).OnlyRaises Refusal.Ordinary := by
  unfold readLanguage
  cases Language.ofName? name with
  | none => exact .error (.inl rfl)
  | some l => exact .ok l

theorem onlyRaises_take (d : Draft) (arguments : List String) :
    (d.take arguments).OnlyRaises Refusal.Ordinary := by
  unfold Draft.take
  split
  · exact .bind (onlyRaises_readLanguage _) fun l => .ok _
  · exact .ok _
  · exact .ok _
  · exact .bind (.mapError fun _ => .inl rfl) fun bs => .ok _
  · exact .error (.inl rfl)

theorem onlyRaises_follow (d : Draft) (event : Arguments.Event) :
    (d.follow event).OnlyRaises Refusal.Ordinary := by
  unfold Draft.follow
  split
  · exact .error (.inl rfl)
  · exact .ok _
  · exact onlyRaises_take d _
  · exact .ok _
  · exact .bind (onlyRaises_readLanguage _) fun l => .ok _
  · exact .ok _
  · exact .ok _
  · exact .error (.inr rfl)

/-- What the arguments of the command come to before those left over are read. -/
def draft (arguments : List String) : Except Refusal Draft :=
  (Arguments.events grammar arguments).foldlM Draft.follow .empty

theorem ofArguments_eq (arguments : List String) :
    ofArguments arguments = draft arguments >>= Draft.finish :=
  rfl

/-- A draft in which the places for the language and the file are filled. -/
structure Draft.IsComplete (d : Draft) : Prop where
  language : d.language.isSome
  file : d.file.isSome

theorem Draft.IsComplete.finish_eq {d : Draft} (h : d.IsComplete) :
    ∃ language file, d.finish = (readLeft d.left).map fun more =>
      ⟨language, file, d.bindings.getD [] ++ more, d.target, d.showProgram, d.checkLabels⟩ := by
  obtain ⟨language, hl⟩ := Option.isSome_iff_exists.mp h.language
  obtain ⟨file, hf⟩ := Option.isSome_iff_exists.mp h.file
  refine ⟨language, file, ?_⟩
  unfold Draft.finish
  simp only [hl, hf]
  cases readLeft d.left with
  | ok more => rfl
  | error r => rfl

theorem Draft.finish_of_not_isComplete {d : Draft} (h : ¬ d.IsComplete) :
    d.finish = .error .usage := by
  unfold Draft.finish
  cases hl : d.language with
  | none => rfl
  | some language =>
      cases hf : d.file with
      | none => rfl
      | some file => exact absurd ⟨by simp [hl], by simp [hf]⟩ h

theorem finish_eq_fault_iff {d : Draft} :
    d.finish = .error (.fault e) ↔ d.IsComplete ∧ readLeft d.left = .error (.fault e) := by
  by_cases h : d.IsComplete
  · obtain ⟨language, file, hfinish⟩ := h.finish_eq
    rw [hfinish]
    cases readLeft d.left with
    | ok more => simp [Except.map]
    | error r => simp [Except.map, h]
  · simp [Draft.finish_of_not_isComplete h, h]

theorem ofArguments_eq_fault_iff :
    ofArguments arguments = .error (.fault e) ↔
      ∃ d, draft arguments = .ok d ∧ d.IsComplete ∧ readLeft d.left = .error (.fault e) := by
  have hordinary : (draft arguments).OnlyRaises Refusal.Ordinary :=
    .foldlM onlyRaises_follow _ _
  rw [ofArguments_eq]
  cases hd : draft arguments with
  | ok d =>
      constructor
      · exact fun h => ⟨d, rfl, finish_eq_fault_iff.mp h⟩
      · rintro ⟨_, ⟨⟩, h⟩
        exact finish_eq_fault_iff.mpr h
  | error r =>
      constructor
      · intro h
        obtain rfl := Except.error.inj h
        rcases hordinary _ hd with h | h
        · cases h
        · cases h
      · rintro ⟨_, ⟨⟩, _⟩

end Invocation

namespace CommandLine

theorem start_eq_fault_iff {arguments : List String} {e : BindingError} :
    start arguments = .ended (.fault (.binding e)) ↔
      Invocation.ofArguments arguments = .error (.fault e) := by
  unfold start
  cases Invocation.ofArguments arguments with
  | error r =>
      cases r with
      | usage => simp
      | help => simp
      | fault e' => simp
  | ok i =>
      simp only [reduceCtorEq, iff_false]
      split
      · exact fun h => nomatch h
      · exact fun h => nomatch h
      · split
        · exact fun h => nomatch h
        · exact fun h => nomatch h

/-- If there are a language and a file, the command goes on with the bindings given by the arguments
left over, or refuses these as wrong usage, or is stopped by one of them. -/
theorem start_of_isComplete {arguments : List String} {d : Invocation.Draft}
    (hd : Invocation.draft arguments = .ok d) (hcomplete : d.IsComplete) :
    (∃ bs i, List.Forall₂ Binding.Gives d.left bs ∧
      Invocation.ofArguments arguments = .ok i ∧ i.bindings = d.bindings.getD [] ++ bs) ∨
    start arguments = .ended (.exit 2) ∨
    ∃ e, start arguments = .ended (.fault (.binding e)) := by
  obtain ⟨language, file, hfinish⟩ := hcomplete.finish_eq
  have hread : Invocation.ofArguments arguments = d.finish := by
    rw [Invocation.ofArguments_eq, hd]
    rfl
  rcases Invocation.readLeft_cases d.left with ⟨bs, hbs, hok⟩ |
    ⟨_, _, _, _, _, _, ⟨_, husage⟩ | ⟨e, _, hfault⟩⟩
  · rw [hfinish, hok] at hread
    exact .inl ⟨bs, _, hbs, hread, rfl⟩
  · rw [hfinish, husage] at hread
    refine .inr (.inl ?_)
    unfold start
    rw [hread]
    rfl
  · rw [hfinish, hfault] at hread
    exact .inr (.inr ⟨e, start_eq_fault_iff.mpr hread⟩)

/-- The error of the first argument left over that gives no number, if it deceives and there are a
language and a file. -/
def StoppedBy (arguments : List String) (e : BindingError) : Prop :=
  ∃ d, Invocation.draft arguments = .ok d ∧ d.IsComplete ∧
    ∃ before bs argument after, d.left = before ++ argument :: after ∧
      List.Forall₂ Binding.Gives before bs ∧ Binding.Deceives argument e

theorem start_eq_fault_iff_stoppedBy {arguments : List String} {e : BindingError} :
    start arguments = .ended (.fault (.binding e)) ↔ StoppedBy arguments e := by
  rw [start_eq_fault_iff, Invocation.ofArguments_eq_fault_iff]
  simp only [Invocation.readLeft_eq_fault_iff]
  rfl

/-- The command goes on with the bindings that the arguments left over give, or refuses the arguments
as wrong usage, unless one of those left over stops it. -/
theorem goes_on_or_refused_iff {arguments : List String} :
    (∀ d, Invocation.draft arguments = .ok d → d.IsComplete →
        (∃ bs i, List.Forall₂ Binding.Gives d.left bs ∧
          Invocation.ofArguments arguments = .ok i ∧ i.bindings = d.bindings.getD [] ++ bs) ∨
        start arguments = .ended (.exit 2)) ↔
      ∀ e, ¬ StoppedBy arguments e := by
  constructor
  · intro h e he
    have hfault := start_eq_fault_iff_stoppedBy.mpr he
    obtain ⟨d, hd, hcomplete, -⟩ := he
    rcases h d hd hcomplete with ⟨bs, i, -, hok, -⟩ | husage
    · rw [start_eq_fault_iff, hok] at hfault
      cases hfault
    · rw [husage] at hfault
      cases hfault
  · intro h d hd hcomplete
    rcases start_of_isComplete hd hcomplete with hgoes | husage | ⟨e, hfault⟩
    · exact .inl hgoes
    · exact .inr husage
    · exact absurd (start_eq_fault_iff_stoppedBy.mp hfault) (h e)

/-- When bindings are read or refused, and when they are neither: an argument that deceives is not
refused, and the first argument left over that gives no number stops the command if it deceives. -/
theorem binding_refused_iff (argument : String) (arguments : List String) :
    ((∃ b, Binding.Gives argument b ∧ Binding.read argument = .ok b) ∨
        Binding.read argument = .error (.malformed argument) ↔
      ∀ e, ¬ Binding.Deceives argument e) ∧
    ((∀ d, Invocation.draft arguments = .ok d → d.IsComplete →
        (∃ bs i, List.Forall₂ Binding.Gives d.left bs ∧
          Invocation.ofArguments arguments = .ok i ∧ i.bindings = d.bindings.getD [] ++ bs) ∨
        start arguments = .ended (.exit 2)) ↔
      ∀ e, ¬ StoppedBy arguments e) ∧
    ∀ e, start arguments = .ended (.fault (.binding e)) ↔ StoppedBy arguments e := by
  refine ⟨Binding.read_or_refused_iff, goes_on_or_refused_iff, ?_⟩
  intro e
  exact start_eq_fault_iff_stoppedBy

/-- A superscript shows a digit, but it is not read as one. -/
theorem binding_refused_superscript :
    (¬ ∀ argument, (∃ b, Binding.Gives argument b ∧ Binding.read argument = .ok b) ∨
      Binding.read argument = .error (.malformed argument)) ∧
    start ["loop", "p", "x=²"] = .ended (.exit 2) ∧
    start ["loop", "p", "-x=²"] = .ended (.fault (.binding (.noNumber "²"))) := by
  have hread : Binding.read "x=²" = .error (.noNumber "²") := by decide +kernel
  refine ⟨fun h => ?_, by decide +kernel, by decide +kernel⟩
  rcases h "x=²" with ⟨b, _, hok⟩ | hmalformed
  · rw [hread] at hok
    cases hok
  · rw [hread] at hmalformed
    cases hmalformed

end CommandLine

end CounterPrograms
