import CounterPrograms.Program.Basic
import CounterPrograms.Token.Lexer

/-!
# Words

A word is a token without its place.  `Word.IsLexeme` says which words a text can consist of, each
kind with its own spelling; `Token.words` gives the words of a list of tokens, up to the mark of the
end of the text.
-/

namespace CounterPrograms

/-- A token without its place. -/
@[ext]
structure Word where
  kind : TokenKind
  text : String
deriving DecidableEq, Repr

namespace Word

/-! ### The words of the languages -/

/-- A keyword. -/
def keyword (s : String) : Word := ⟨.keyword, s⟩

/-- A name. -/
def identifier (x : String) : Word := ⟨.identifier, x⟩

/-- A numeral. -/
def number (s : String) : Word := ⟨.number, s⟩

/-- The sign of an operation. -/
def operator (o : Arithmetic) : Word := ⟨.operator, o.symbol⟩

/-- The sign of a relation. -/
def comparison (o : Comparison) : Word := ⟨.comparison, o.symbol⟩

/-- The sign of an assignment. -/
def assign : Word := ⟨.assign, ":="⟩

/-- The end of a statement. -/
def semicolon : Word := ⟨.semicolon, ";"⟩

/-- The end of a label. -/
def colon : Word := ⟨.colon, ":"⟩

/-- The mark of the end of a text. -/
def endOfText : Word := ⟨.endOfText, ""⟩

/-! ### Lexemes -/

/-- A letter, followed by letters and digits. -/
def IsAlphanumeric (s : List Char) : Prop :=
  ∃ c cs, s = c :: cs ∧ c.isAlpha = true ∧ ∀ d ∈ cs, d.isAlphanum = true

/-- A name: a letter, followed by letters and digits, but no keyword. -/
structure IsIdentifier (x : String) : Prop where
  alphanumeric : IsAlphanumeric x.toList
  not_keyword : x ∉ Token.keywords

instance : DecidablePred IsAlphanumeric
  | [] => isFalse fun ⟨_, _, h, _⟩ => nomatch h
  | c :: cs => decidable_of_iff (c.isAlpha = true ∧ cs.all Char.isAlphanum = true)
      ⟨fun h => ⟨c, cs, rfl, h.1, List.all_eq_true.mp h.2⟩,
        fun ⟨_, _, h, hc, hcs⟩ => by cases h; exact ⟨hc, List.all_eq_true.mpr hcs⟩⟩

instance (x : String) : Decidable (IsIdentifier x) :=
  decidable_of_iff (IsAlphanumeric x.toList ∧ x ∉ Token.keywords)
    ⟨fun h => ⟨h.1, h.2⟩, fun h => ⟨h.1, h.2⟩⟩

/-- A word as it can stand in a text. -/
inductive IsLexeme : Word → Prop
  | keyword {s : String} : s ∈ Token.keywords → IsLexeme (keyword s)
  | identifier {x : String} : IsIdentifier x → IsLexeme (identifier x)
  | number {s : String} : s.toList ≠ [] → (∀ c ∈ s.toList, c.isDigit = true) → IsLexeme (number s)
  | operator (o : Arithmetic) : IsLexeme (operator o)
  | comparison (o : Comparison) : IsLexeme (comparison o)
  | assign : IsLexeme assign
  | semicolon : IsLexeme semicolon
  | colon : IsLexeme colon

/-- A lexeme which is no numeral above the limit. -/
structure IsReadable (w : Word) : Prop where
  isLexeme : w.IsLexeme
  length_le : w.kind = .number → w.text.length ≤ Numeral.limit

variable {w : Word}

namespace IsLexeme

theorem kind_ne (h : w.IsLexeme) : w.kind ≠ .endOfText := by
  cases h <;> exact nofun

theorem isAlphanumeric_of_keyword {s : String} (h : s ∈ Token.keywords) :
    IsAlphanumeric s.toList := by
  simp only [Token.keywords, List.mem_cons, List.not_mem_nil, or_false] at h
  rcases h with rfl | rfl | rfl | rfl | rfl | rfl | rfl | rfl | rfl <;> decide

theorem isReadable (h : w.IsLexeme) (hk : w.kind ≠ .number) : w.IsReadable :=
  ⟨h, fun hn => absurd hn hk⟩

theorem eq_assign (h : w.IsLexeme) (hk : w.kind = .assign) : w = Word.assign := by
  cases h with
  | assign => rfl
  | _ => cases hk

theorem eq_semicolon (h : w.IsLexeme) (hk : w.kind = .semicolon) : w = Word.semicolon := by
  cases h with
  | semicolon => rfl
  | _ => cases hk

theorem eq_colon (h : w.IsLexeme) (hk : w.kind = .colon) : w = Word.colon := by
  cases h with
  | colon => rfl
  | _ => cases hk

theorem exists_operator (h : w.IsLexeme) (hk : w.kind = .operator) : ∃ o, w = .operator o := by
  cases h with
  | operator o => exact ⟨o, rfl⟩
  | _ => cases hk

theorem exists_comparison (h : w.IsLexeme) (hk : w.kind = .comparison) :
    ∃ o, w = .comparison o := by
  cases h with
  | comparison o => exact ⟨o, rfl⟩
  | _ => cases hk

end IsLexeme

namespace IsReadable

theorem keyword {s : String} (h : s ∈ Token.keywords) : (Word.keyword s).IsReadable :=
  (IsLexeme.keyword h).isReadable nofun

theorem identifier {x : String} (h : IsIdentifier x) : (Word.identifier x).IsReadable :=
  (IsLexeme.identifier h).isReadable nofun

theorem operator (o : Arithmetic) : (Word.operator o).IsReadable :=
  (IsLexeme.operator o).isReadable nofun

theorem comparison (o : Comparison) : (Word.comparison o).IsReadable :=
  (IsLexeme.comparison o).isReadable nofun

theorem assign : Word.assign.IsReadable :=
  IsLexeme.assign.isReadable nofun

theorem semicolon : Word.semicolon.IsReadable :=
  IsLexeme.semicolon.isReadable nofun

theorem colon : Word.colon.IsReadable :=
  IsLexeme.colon.isReadable nofun

end IsReadable

end Word

/-! ### The words of tokens -/

namespace Token

/-- The word of a token. -/
def word (t : Token) : Word := ⟨t.kind, t.text⟩

theorem isOf_none_iff {t : Token} {kind : TokenKind} : t.isOf kind none = true ↔ t.kind = kind := by
  simp [isOf]

theorem isOf_some_iff {t : Token} {kind : TokenKind} {text : String} :
    t.isOf kind (some text) = true ↔ t.word = ⟨kind, text⟩ := by
  simp only [isOf, word, Option.all_some, Bool.and_eq_true, decide_eq_true_eq, Word.mk.injEq]
  exact and_congr_right fun _ => eq_comm

/-- The words of tokens up to the mark of the end of the text. -/
def words (ts : List Token) : List Word :=
  (ts.takeWhile fun t => t.kind ≠ .endOfText).map word

@[simp]
theorem words_nil : words [] = [] := rfl

theorem words_cons_of_ne {t : Token} (h : t.kind ≠ .endOfText) (ts : List Token) :
    words (t :: ts) = t.word :: words ts := by
  simp [words, h]

theorem words_cons_of_eq {t : Token} (h : t.kind = .endOfText) (ts : List Token) :
    words (t :: ts) = [] := by
  simp [words, h]

theorem words_append {done : List Token} (h : ∀ t ∈ done, t.kind ≠ .endOfText)
    (rest : List Token) : words (done ++ rest) = done.map word ++ words rest := by
  induction done with
  | nil => rfl
  | cons t done ih =>
      rw [List.forall_mem_cons] at h
      rw [List.cons_append, words_cons_of_ne h.1, ih h.2]
      rfl

/-- Tokens that end with the mark of the end of the text. -/
theorem exists_of_map_word {ts : List Token} {ws : List Word}
    (h : ts.map word = ws ++ [Word.endOfText]) (hws : ∀ w ∈ ws, w.IsLexeme) :
    ∃ done t, ts = done ++ [t] ∧ t.kind = .endOfText ∧ words ts = ws := by
  obtain ⟨done, last, rfl, hdone, hlast⟩ := List.map_eq_append_iff.mp h
  obtain ⟨t, rfl, ht⟩ := List.map_eq_singleton_iff.mp hlast
  have hkind : t.kind = .endOfText := congrArg Word.kind ht
  refine ⟨done, t, rfl, hkind, ?_⟩
  rw [words_append, words_cons_of_eq hkind, List.append_nil, hdone]
  intro u hu
  exact (hws _ (hdone ▸ List.mem_map_of_mem hu)).kind_ne

end Token

end CounterPrograms
