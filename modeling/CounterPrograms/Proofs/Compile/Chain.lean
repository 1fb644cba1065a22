import CounterPrograms.Proofs.Compile.GotoToWhile
import CounterPrograms.Proofs.Compile.LoopToWhile
import CounterPrograms.Proofs.Compile.WhileToGoto
import CounterPrograms.Proofs.Program.Literals
import CounterPrograms.Proofs.Run.Ends

/-!
# Chains of compilations

`Program.Keeps reserved m p q` says that `q` knows the variables of `p` and ends, begun with `m`,
with the same values of these and of the reserved names wherever `p` ends.  Every compilation gives
such a program (`Program.keeps_of_compile`), and as the vocabulary only grows, so does every chain
of them (`Program.keeps_of_compileAlong`).

Nothing is said of limits here: programs in the middle of a chain may exceed theirs.  If the first
and the last program return, they return the same values (`Program.runIn_compileAlong`).
-/

namespace CounterPrograms

namespace Program

/-- Compiles a program of the first language to one language after the other. -/
def compileAlong (reserved : List String) :
    Language → List Language → Program → Except CompileError Program
  | _, [], p => .ok p
  | l, l' :: path, p => do
    let q ← p.compile l l' reserved
    compileAlong reserved l' path q

/-- The program `q` knows the variables of `p`, and keeps the values of these and of the reserved
names. -/
structure Keeps (reserved : List String) (m : Memory) (p q : Program) : Prop where
  names : ∀ x ∈ p.names, x ∈ q.names
  ends : ∀ m', p.Ends m m' → ∃ μ', q.Ends m μ' ∧
    ∀ x, x ∈ p.names ∨ x ∈ reserved → m'.store.value x = μ'.store.value x

namespace Keeps

variable {reserved : List String} {m : Memory} {p q r : Program}

theorem refl (p : Program) : Keeps reserved m p p :=
  ⟨fun _ hx => hx, fun m' h => ⟨m', h, fun _ _ => rfl⟩⟩

theorem trans (h₁ : Keeps reserved m p q) (h₂ : Keeps reserved m q r) : Keeps reserved m p r := by
  refine ⟨fun x hx => h₂.names x (h₁.names x hx), fun m' hm' => ?_⟩
  obtain ⟨μ, hμ, hval₁⟩ := h₁.ends m' hm'
  obtain ⟨μ', hμ', hval₂⟩ := h₂.ends μ hμ
  refine ⟨μ', hμ', fun x hx => ?_⟩
  rw [hval₁ x hx, hval₂ x (hx.imp_left (h₁.names x))]

end Keeps

theorem value_eq_of_agreesBut {hidden names reserved : List String} {m μ : Memory}
    (ha : m.AgreesBut hidden μ) (hnew : ∀ d ∈ hidden, d ∉ names ++ reserved) {x : String}
    (hx : x ∈ names ∨ x ∈ reserved) : m.store.value x = μ.store.value x :=
  ha.store.value_eq fun hd => hnew x hd (List.mem_append.mpr hx)

section steps

variable {reserved : List String} {m : Memory} {q : Program}

theorem keeps_loopToWhile {ss : List Stmt} (hi : m.Initial reserved)
    (hlit : ∀ n ∈ Stmt.literalsOfBlock ss, 0 ≤ n)
    (hq : (loop ss).loopToWhile reserved = .ok q) :
    Keeps reserved m (loop ss) q ∧ q.language = .whileDo := by
  have hnew := fun d hd => LoopToWhile.not_mem_of_mem_newNames hq (x := d) hd
  obtain ⟨f, ts, n', _, rfl, himage⟩ := LoopToWhile.image_of_loopToWhile hq
  refine ⟨⟨fun x hx => himage.mem_names_iff.mpr (.inl hx), fun m' hm' => ?_⟩, rfl⟩
  obtain ⟨k, μ', hex, _, ha⟩ :=
    LoopToWhile.exec_of_runBlock hq hlit hi (fun _ hx => .inl hx) hm'
  exact ⟨μ', ⟨k, hex⟩, fun x hx => value_eq_of_agreesBut ha hnew hx⟩

theorem keeps_whileToGoto {ss : List Stmt} (hi : m.Initial reserved)
    (hq : (whileDo ss).whileToGoto reserved = .ok q) :
    Keeps reserved m (whileDo ss) q ∧ q.language = .goto := by
  obtain ⟨is, n', rfl, himage, hnew⟩ := WhileToGoto.image_of_whileToGoto hq
  refine ⟨⟨fun x hx => ?_, fun m' ⟨k, hex⟩ => ?_⟩, rfl⟩
  · exact WhileToGoto.mem_names_append_halt.mpr (himage.mem_names hx)
  · have hown : ∀ x ∈ Stmt.namesOfBlock ss, x ∉ WhileToGoto.idleVariables ss reserved :=
      fun x hx hd => hnew x hd (List.mem_append_left _ hx)
    obtain ⟨path, t, hr, ha⟩ := WhileToGoto.halts_of_exec himage hown
      (hi.agreesBut_of_new (fun _ hx => .inl hx) hnew) hex
    exact ⟨t.memory, ⟨path, t, hr, rfl⟩, fun x hx => value_eq_of_agreesBut ha hnew hx⟩

theorem keeps_gotoToWhile {is : List Instruction} (hi : m.Initial reserved)
    (hq : (goto is).gotoToWhile reserved = .ok q) :
    Keeps reserved m (goto is) q ∧ q.language = .whileDo := by
  rcases GotoToWhile.cases_of_gotoToWhile hq with ⟨rfl, rfl, _⟩ | ⟨c, body, hd, rfl, _, hne, hnew⟩
  · refine ⟨⟨fun x hx => hx, fun m' ⟨path, t, hr, ht⟩ => ?_⟩, rfl⟩
    subst ht
    obtain rfl := hr.eq_of_nil
    exact ⟨m, ⟨0, .nil m⟩, fun _ _ => rfl⟩
  · refine ⟨⟨fun x hx => ?_, fun m' ⟨path, t, hr, ht⟩ => ?_⟩, rfl⟩
    · exact (GotoToWhile.mem_names_simulationCode hd).mpr (.inl hx)
    · subst ht
      have hown : ∀ x ∈ (goto is).names, x ∉ [c] :=
        fun x hx hc => hnew x hc (List.mem_append_left _ hx)
      obtain ⟨μ', hex, ha, _⟩ := GotoToWhile.exec_of_halts_compiled hd hown hr hne rfl rfl
        (hi.agreesBut_of_new (fun _ hx => .inl hx) hnew)
      exact ⟨μ', ⟨_, hex⟩, fun x hx => value_eq_of_agreesBut ha hnew hx⟩

theorem ne_loop_of_compile {l l' : Language} {p : Program}
    (hq : p.compile l l' reserved = .ok q) : l' ≠ .loop := by
  rintro rfl
  cases l <;> cases hq

theorem keeps_of_compile {l l' : Language} {p : Program} (hi : m.Initial reserved)
    (hl : p.language = l) (hlit : l = .loop → ∀ n ∈ p.literals, 0 ≤ n)
    (hq : p.compile l l' reserved = .ok q) : Keeps reserved m p q ∧ q.language = l' := by
  subst hl
  cases p with
  | loop ss =>
      cases l' with
      | loop => cases hq
      | whileDo => exact keeps_loopToWhile hi (hlit rfl) hq
      | goto =>
          obtain ⟨r, hr, hq⟩ := Except.bind_eq_ok_iff.mp hq
          obtain ⟨hk₁, _⟩ := keeps_loopToWhile hi (hlit rfl) hr
          obtain ⟨_, ts, _, _, rfl, _⟩ := LoopToWhile.image_of_loopToWhile hr
          obtain ⟨hk₂, hl⟩ := keeps_whileToGoto hi hq
          exact ⟨hk₁.trans hk₂, hl⟩
  | whileDo ss =>
      cases l' with
      | goto => exact keeps_whileToGoto hi hq
      | loop | whileDo => cases hq
  | goto is =>
      cases l' with
      | whileDo => exact keeps_gotoToWhile hi hq
      | loop | goto => cases hq

end steps

/-- Every chain of compilations keeps the values, and ends in the last language. -/
theorem keeps_of_compileAlong {reserved : List String} {m : Memory} {l : Language}
    {path : List Language} {p q : Program} (hi : m.Initial reserved) (hl : p.language = l)
    (hlit : l = .loop → ∀ n ∈ p.literals, 0 ≤ n)
    (hq : compileAlong reserved l path p = .ok q) :
    Keeps reserved m p q ∧ q.language = path.getLastD l := by
  induction path generalizing l p with
  | nil =>
      obtain rfl := Except.ok.inj hq
      exact ⟨.refl p, hl⟩
  | cons l' path ih =>
      obtain ⟨r, hr, hq⟩ := Except.bind_eq_ok_iff.mp hq
      obtain ⟨hk₁, hl₁⟩ := keeps_of_compile hi hl hlit hr
      obtain ⟨hk₂, hl₂⟩ := ih hl₁ (fun h => absurd h (ne_loop_of_compile hr)) hq
      refine ⟨hk₁.trans hk₂, ?_⟩
      rw [hl₂, List.getLastD_cons]

/-- Chains of compilations preserve meaning: if a program and the last one of a chain begun with it
both return, they give the same values to its variables and to the names of the inputs, whatever the
programs between them do within their limits. -/
theorem runIn_compileAlong {l : Language} {text : String} {p q : Program} {path : List Language}
    {pairs : List (String × Nat)} {s t : Store} (hp : parse l text = .ok p)
    (hq : compileAlong (Inputs.ofNaturals pairs).names l path p = .ok q)
    (hs : p.runIn l (.ofNaturals pairs) = .ok s)
    (ht : q.runIn (path.getLastD l) (.ofNaturals pairs) = .ok t) {x : String}
    (hx : x ∈ p.names ∨ x ∈ (Inputs.ofNaturals pairs).names) : s.value x = t.value x := by
  obtain ⟨m, hm, hi⟩ := Memory.bindAll_ofNaturals pairs
  have hl := language_of_parse hp
  obtain ⟨hk, hl'⟩ := keeps_of_compileAlong hi hl (fun _ => nonneg_of_parse hp) hq
  rw [← hl] at hs
  rw [← hl'] at ht
  obtain ⟨m', hm', rfl⟩ := ends_of_runIn hm hs
  obtain ⟨μ, hμ, rfl⟩ := ends_of_runIn hm ht
  obtain ⟨μ', hμ', hval⟩ := hk.ends m' hm'
  obtain rfl := hμ.unique hμ'
  exact hval x hx

/-- From LOOP to GOTO, back to WHILE and to GOTO again. -/
theorem runIn_compileAlong_summing :
    ∃ p q s t, parse .loop "LOOP a DO y := y + a; LOOP x3 DO x3 := y - 1; END END" = .ok p ∧
      compileAlong (Inputs.ofNaturals [("a", 2), ("x3", 1), ("z", 7)]).names .loop
        [.goto, .whileDo, .goto] p = .ok q ∧
      p.runIn .loop (.ofNaturals [("a", 2), ("x3", 1), ("z", 7)]) = .ok s ∧
      q.runIn .goto (.ofNaturals [("a", 2), ("x3", 1), ("z", 7)]) = .ok t ∧
      s.value "x3" = t.value "x3" := by
  obtain ⟨p, hp, hrest⟩ : ∃ p,
      parse .loop "LOOP a DO y := y + a; LOOP x3 DO x3 := y - 1; END END" = .ok p ∧
      ((compileAlong (Inputs.ofNaturals [("a", 2), ("x3", 1), ("z", 7)]).names .loop
        [.goto, .whileDo, .goto] p).toOption.any fun q =>
          (q.runIn .goto (.ofNaturals [("a", 2), ("x3", 1), ("z", 7)])).toOption.any fun _ =>
            (p.runIn .loop (.ofNaturals [("a", 2), ("x3", 1), ("z", 7)])).toOption.any fun _ =>
              decide ("x3" ∈ p.names)) = true :=
    Except.exists_of_any (by decide +kernel)
  obtain ⟨q, hq, hruns⟩ := Except.exists_of_any hrest
  obtain ⟨t, ht, hruns⟩ := Except.exists_of_any hruns
  obtain ⟨s, hs, hx⟩ := Except.exists_of_any hruns
  exact ⟨p, q, s, t, hp, hq, hs, ht,
    runIn_compileAlong hp hq hs ht (.inl (of_decide_eq_true hx))⟩

end Program

end CounterPrograms
