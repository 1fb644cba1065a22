import CounterPrograms.Program.Parser
import CounterPrograms.Proofs.Program.Prospect

/-!
# The word that comes next

The parser chooses among alternatives by what `check`, `checkWord` and `atEnd` say of the tokens.
This is what the next word is, and which prospects it excludes (`Prospect.Excludes`).
-/

namespace CounterPrograms

open Token Grammar

namespace Parser

variable {ts : List Token}

theorem word_of_head? {t : Token} {rest : List Token} {a : Word}
    (h : (words (t :: rest)).head? = some a) : t.word = a := by
  by_cases ht : t.kind = .endOfText
  · rw [words_cons_of_eq ht] at h
    cases h
  · rw [words_cons_of_ne ht] at h
    exact Option.some.inj h

theorem atEnd_iff : atEnd ts = true ↔ (words ts).head? = none := by
  cases ts with
  | nil => simp [atEnd]
  | cons t rest =>
      by_cases ht : t.kind = .endOfText
      · simp [atEnd, ht, words_cons_of_eq ht]
      · simp [atEnd, ht, words_cons_of_ne ht]

theorem check_eq (kind : TokenKind) (text : Option String) (hk : kind ≠ .endOfText) :
    check kind text ts =
      (words ts).head?.any fun a => a.kind = kind && text.all (· = a.text) := by
  cases ts with
  | nil => rfl
  | cons t rest =>
      by_cases ht : t.kind = .endOfText
      · simp [check, isOf, words_cons_of_eq ht, ht, hk.symm]
      · simp [check, isOf, words_cons_of_ne ht, word]

theorem checkWord_iff {k : String} :
    checkWord k ts = true ↔ (words ts).head? = some (.keyword k) := by
  rw [checkWord, check_eq .keyword _ nofun]
  cases (words ts).head? with
  | none => simp
  | some a => simp [Word.ext_iff, Word.keyword, @eq_comm _ k]

theorem check_identifier_iff :
    check .identifier none ts = true ↔ ∃ x, (words ts).head? = some (.identifier x) := by
  rw [check_eq .identifier _ nofun]
  cases (words ts).head? with
  | none => simp
  | some a => simp [Word.ext_iff, Word.identifier]

theorem check_operator_iff (hlex : ∀ a ∈ words ts, a.IsLexeme) :
    check .operator none ts = true ↔ ∃ o, (words ts).head? = some (.operator o) := by
  rw [check_eq .operator _ nofun]
  cases h : (words ts).head? with
  | none => simp
  | some a =>
      have ha := hlex a (List.mem_of_head? h)
      simp only [Option.any_some, Option.all_none, Bool.and_true, decide_eq_true_eq,
        Option.some.injEq]
      exact ⟨ha.exists_operator, fun ⟨o, ho⟩ => congrArg Word.kind ho⟩

/-! ### Where a block is over -/

namespace BlockEnd

/-- Whether a block is over before the given word, or before nothing. -/
def Meets : BlockEnd → Option Word → Prop
  | text, a => a = none
  | words ks, a => ∃ k ∈ ks, a = some (.keyword k)

/-- Whether no statement begins with the end of the block. -/
def IsProper : BlockEnd → Prop
  | text => True
  | words ks => ∀ k ∈ ks, k = "ELSE" ∨ k = "END"

theorem isProper_end : (words ["END"]).IsProper :=
  List.forall_mem_singleton.mpr (.inr rfl)

theorem meets_of_word {ks : List String} {k : String} (hk : k ∈ ks) {L : Prospect} (w : List Word)
    (p : Program) (h : Prospect.word (.keyword k) L w p) : (words ks).Meets w.head? := by
  obtain ⟨rest, rfl, _⟩ := h
  exact ⟨k, hk, rfl⟩

/-- No statement begins where a block is over. -/
theorem IsProper.not_meets {e : BlockEnd} (he : e.IsProper) {l : Language} {K : Stmt → Prospect}
    (w : List Word) (p : Program) (h : Prospect.phrase (IsStatement l) K w p) :
    ¬ e.Meets w.head? ∧ w.head? ≠ none := by
  obtain ⟨u, s, rest, rfl, hs, _⟩ := h
  obtain ⟨a, u, rfl, helse, hend⟩ := hs.exists_cons
  refine ⟨fun hm => ?_, nofun⟩
  cases e with
  | text => cases hm
  | words ks =>
      obtain ⟨k, hk, ha⟩ := hm
      obtain rfl := Option.some.inj ha
      rcases he k hk with rfl | rfl
      · exact helse rfl
      · exact hend rfl

/-- There may be the end of the block, something else, or nothing where a keyword should be. -/
theorem reached_cases (e : BlockEnd) (ts : List Token) :
    (e.reached ts = .ok true ∧ e.Meets (Token.words ts).head?) ∨
      (e.reached ts = .ok false ∧ ¬ e.Meets (Token.words ts).head?) ∨
        ∃ x, e.reached ts = refuse x ts ∧ ¬ e.Meets (Token.words ts).head? ∧
          (Token.words ts).head? = none := by
  cases e with
  | text =>
      by_cases h : atEnd ts = true
      · exact .inl ⟨congrArg _ h, atEnd_iff.mp h⟩
      · exact .inr (.inl ⟨congrArg _ (Bool.eq_false_iff.mpr h), fun hend => h (atEnd_iff.mpr hend)⟩)
  | words ks =>
      have hmeets : (ks.any fun k => checkWord k ts) = true ↔
          (words ks).Meets (Token.words ts).head? := by
        simp only [List.any_eq_true, checkWord_iff, Meets]
      by_cases h : (ks.any fun k => checkWord k ts) = true
      · exact .inl ⟨if_pos h, hmeets.mp h⟩
      · have hnot := fun hm => h (hmeets.mpr hm)
        by_cases hend : atEnd ts = true
        · exact .inr (.inr ⟨_, (if_neg h).trans (if_pos hend), hnot, atEnd_iff.mp hend⟩)
        · exact .inr (.inl ⟨(if_neg h).trans (if_neg hend), hnot⟩)

end BlockEnd

end Parser

/-! ### What cannot come -/

namespace Prospect

/-- No list of words in the prospect begins as the tokens do. -/
def Excludes (L : Prospect) (ts : List Token) : Prop :=
  ∀ w p, w.head? = (words ts).head? → ¬ L w p

namespace Excludes

variable {β : Type} {L M : Prospect} {ts : List Token}

theorem word {a : Word} (h : (words ts).head? ≠ some a) (L : Prospect) :
    Excludes (word a L) ts := by
  rintro w p hw ⟨rest, rfl, _⟩
  exact h hw.symm

theorem oneOf {A : β → Word} (h : ∀ b, (words ts).head? ≠ some (A b)) (K : β → Prospect) :
    Excludes (oneOf A K) ts := by
  rintro w p hw ⟨b, rest, rfl, _⟩
  exact h b hw.symm

theorem either (hL : L.Excludes ts) (hM : M.Excludes ts) : Excludes (either L M) ts := by
  rintro w p hw (h | h)
  · exact hL w p hw h
  · exact hM w p hw h

theorem assignment (h : ∀ x, (words ts).head? ≠ some (.identifier x)) (K : Stmt → Prospect) :
    Excludes (phrase IsAssignment K) ts := by
  rw [phrase_assignment]
  exact oneOf h _

theorem of_avoids {P : Word → Prop} {a : Word} (hL : L.Avoids P)
    (ha : (words ts).head? = some a) (hP : P a) : L.Excludes ts :=
  fun w p hw h => hL w p h a (hw.trans ha) hP

end Excludes

end Prospect

end CounterPrograms
