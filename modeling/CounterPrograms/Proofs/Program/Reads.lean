import CounterPrograms.Proofs.Program.NextWord
import CounterPrograms.Proofs.Sequence

/-!
# What reading does to a prospect

`Parser.Reads L K ts x` says of the computation `x`, which reads the head of the tokens `ts`, that
it is right about the prospect `L` of lists of words.

* If it reads a value `v` and leaves the tokens `rest`, then `L` says of what comes behind the words
  read no more and no less than `K v`.  No more, that is, of words which begin as `rest` does: the
  next token is all that may have been looked at.
* If it stops, then at the first word with which no list in `L` goes on: what was read before it can
  be completed to a list in `L`, and not if the next word is that one.  Otherwise a numeral is too
  long.

The rules for computations made of others (`Reads.bind`), for the choice among alternatives by the
next word (`Reads.inl`, `Reads.inr`) and for single words (`Reads.word`, `Reads.identifier`) carry
this through the whole parser.
-/

namespace CounterPrograms

namespace Parser

open Token

variable {α β : Type} {n m : Nat} {ts ts' : List Token}

/-- Reading `done` before `rest` leads from the prospect `L` to the prospect `K`. -/
structure Leads (L K : Prospect) (done rest : List Token) : Prop where
  readable : ∀ t ∈ done, t.word.IsReadable
  extend : ∀ w p, K w p → L (done.map word ++ w) p
  narrow : ∀ w p, w.head? = (words rest).head? → L (done.map word ++ w) p → K w p

/-- Having read `done`, one stops where the lists of words in `L` cannot go on. -/
structure Blocks (L : Prospect) (done : List Token) (s : Stop) : Prop where
  readable : ∀ t ∈ done, t.word.IsReadable
  mismatch : ∃ e, s.error.mismatch? = some (e, s.rest.head?)
  viable : ∃ more p, (∀ a ∈ more, a.IsReadable) ∧ L (done.map word ++ more) p
  dead : ∀ w p, w.head? = (words s.rest).head? → ¬ L (done.map word ++ w) p

/-- A computation that reads the head of `ts` is right about the prospect `L`, of which `K` says
what is left after each value. -/
structure Reads (L : Prospect) (K : α → Prospect) (ts : List Token)
    (x : Except Stop (Reading n ts' α)) : Prop where
  ok : (∀ a ∈ words ts, a.IsLexeme) → ∀ r, x = .ok r →
    ∃ done, ts = done ++ r.rest ∧ Leads L (K r.value) done r.rest
  error : (∀ a ∈ words ts, a.IsLexeme) → ∀ s, x = .error s →
    (∃ a ∈ words ts, ¬ a.IsReadable) ∨ ∃ done, ts = done ++ s.rest ∧ Blocks L done s

/-! ### Readable tokens -/

theorem words_append_of_readable {done : List Token} (h : ∀ t ∈ done, t.word.IsReadable)
    (rest : List Token) : words (done ++ rest) = done.map word ++ words rest :=
  words_append (fun t ht => (h t ht).isLexeme.kind_ne) rest

/-- Words that begin as `rest` does begin as `done ++ rest` does once `done` is put before them. -/
theorem head?_append {done rest : List Token} (h : ∀ t ∈ done, t.word.IsReadable) {w : List Word}
    (hw : w.head? = (words rest).head?) :
    (done.map word ++ w).head? = (words (done ++ rest)).head? := by
  rw [words_append_of_readable h, List.head?_append, List.head?_append, hw]

/-! ### One after the other -/

namespace Leads

variable {L K M : Prospect} {done done' rest : List Token}

theorem refl (L : Prospect) (rest : List Token) : Leads L L [] rest :=
  ⟨nofun, fun _ _ h => h, fun _ _ _ h => h⟩

theorem trans (h₁ : Leads L K done (done' ++ rest)) (h₂ : Leads K M done' rest) :
    Leads L M (done ++ done') rest := by
  refine ⟨List.forall_mem_append.mpr ⟨h₁.readable, h₂.readable⟩, fun w p hM => ?_,
    fun w p hw hL => ?_⟩
  · rw [List.map_append, List.append_assoc]
    exact h₁.extend _ p (h₂.extend w p hM)
  · rw [List.map_append, List.append_assoc] at hL
    exact h₂.narrow w p hw (h₁.narrow _ p (head?_append h₂.readable hw) hL)

theorem blocks {s : Stop} (h₁ : Leads L K done (done' ++ s.rest)) (h₂ : Blocks K done' s) :
    Blocks L (done ++ done') s := by
  refine ⟨List.forall_mem_append.mpr ⟨h₁.readable, h₂.readable⟩, h₂.mismatch, ?_,
    fun w p hw hL => ?_⟩
  · obtain ⟨more, p, hmore, hK⟩ := h₂.viable
    refine ⟨more, p, hmore, ?_⟩
    rw [List.map_append, List.append_assoc]
    exact h₁.extend _ p hK
  · rw [List.map_append, List.append_assoc] at hL
    exact h₂.dead w p hw (h₁.narrow _ p (head?_append h₂.readable hw) hL)

end Leads

namespace Reads

variable {L M : Prospect} {K : α → Prospect}

theorem pure {v : α} {rest : List Token} {h : rest.length + n ≤ ts'.length} :
    Reads (K v) K rest (.ok ⟨v, rest, h⟩) := by
  refine ⟨fun _ r hr => ?_, fun _ s hs => (nomatch hs)⟩
  obtain rfl := Except.ok.inj hr
  exact ⟨[], rfl, .refl _ _⟩

/-- Whether the words ahead are lexemes may be taken for granted. -/
theorem of_isLexeme {x : Except Stop (Reading n ts' α)}
    (h : (∀ a ∈ words ts, a.IsLexeme) → Reads L K ts x) : Reads L K ts x :=
  ⟨fun hlex => (h hlex).ok hlex, fun hlex => (h hlex).error hlex⟩

/-- A computation that goes on where others have led to. -/
theorem after {done : List Token} {x : Except Stop (Reading n ts' α)} (hl : Leads L M done ts)
    (hx : Reads M K ts x) : Reads L K (done ++ ts) x := by
  have hwords := words_append_of_readable hl.readable ts
  have hlexeme : (∀ a ∈ words (done ++ ts), a.IsLexeme) → ∀ a ∈ words ts, a.IsLexeme :=
    fun hlex a ha => hlex a (hwords ▸ List.mem_append_right _ ha)
  refine ⟨fun hlex r hr => ?_, fun hlex s hs => ?_⟩
  · obtain ⟨done', rfl, h⟩ := hx.ok (hlexeme hlex) r hr
    exact ⟨done ++ done', (List.append_assoc _ _ _).symm, hl.trans h⟩
  · rcases hx.error (hlexeme hlex) s hs with ⟨a, ha, hlong⟩ | ⟨done', rfl, h⟩
    · exact .inl ⟨a, hwords ▸ List.mem_append_right _ ha, hlong⟩
    · exact .inr ⟨done ++ done', (List.append_assoc _ _ _).symm, hl.blocks h⟩

theorem bind {K₁ : β → Prospect} {ts₁ : List Token} {x : Except Stop (Reading m ts₁ β)}
    {f : Reading m ts₁ β → Except Stop (Reading n ts' α)} (hx : Reads L K₁ ts x)
    (hf : ∀ r, Reads (K₁ r.value) K r.rest (f r)) : Reads L K ts (x >>= f) := by
  apply of_isLexeme
  intro hlex
  cases hr : x with
  | ok r =>
      obtain ⟨done, rfl, hl⟩ := hx.ok hlex r hr
      exact after hl (hf r)
  | error s =>
      refine ⟨fun _ r hr => (nomatch hr), fun _ s' hs => ?_⟩
      obtain rfl := Except.error.inj hs
      exact hx.error hlex s hr

/-! ### Choosing by the next word -/

/-- The prospect may be widened by words that do not begin as the tokens do. -/
theorem widen {x : Except Stop (Reading n ts' α)} (hx : Reads L K ts x)
    (hsub : ∀ w p, L w p → M w p)
    (hback : ∀ w p, w.head? = (words ts).head? → M w p → L w p) : Reads M K ts x := by
  refine ⟨fun hlex r hr => ?_, fun hlex s hs => ?_⟩
  · obtain ⟨done, rfl, h⟩ := hx.ok hlex r hr
    refine ⟨done, rfl, h.readable, fun w p hK => hsub _ p (h.extend w p hK), fun w p hw hM => ?_⟩
    exact h.narrow w p hw (hback _ p (head?_append h.readable hw) hM)
  · refine (hx.error hlex s hs).imp_right ?_
    rintro ⟨done, rfl, h⟩
    obtain ⟨more, p, hmore, hL⟩ := h.viable
    refine ⟨done, rfl, h.readable, h.mismatch, ⟨more, p, hmore, hsub _ p hL⟩, fun w p hw hM => ?_⟩
    exact h.dead w p hw (hback _ p (head?_append h.readable hw) hM)

theorem inl {x : Except Stop (Reading n ts' α)} (hM : M.Excludes ts) (hx : Reads L K ts x) :
    Reads (.either L M) K ts x :=
  hx.widen (fun _ _ => .inl) fun w p hw h => h.resolve_right (hM w p hw)

theorem inr {x : Except Stop (Reading n ts' α)} (hL : L.Excludes ts) (hx : Reads M K ts x) :
    Reads (.either L M) K ts x :=
  hx.widen (fun _ _ => .inr) fun w p hw h => h.resolve_left (hL w p hw)

/-- Stopping at a token with which nothing in the prospect begins. -/
theorem refuse (e : Expectation) (hL : L.Completable) (hex : L.Excludes ts) :
    Reads L K ts (refuse e ts : Except Stop (Reading n ts' α)) := by
  refine ⟨fun _ r hr => (nomatch hr), fun _ s hs => ?_⟩
  obtain rfl := Except.error.inj hs
  exact .inr ⟨[], rfl, nofun, ⟨e, rfl⟩, hL, hex⟩

theorem tooLong {t : Token} {rest : List Token} (ht : t.kind = .number)
    (hlimit : ¬ t.text.length ≤ Numeral.limit) (s : Stop) :
    Reads L K (t :: rest) (.error s : Except Stop (Reading n ts' α)) := by
  refine ⟨fun _ r hr => (nomatch hr), fun _ _ _ => .inl ⟨t.word, ?_, fun h => ?_⟩⟩
  · rw [words_cons_of_ne (by simp [ht])]
    exact List.mem_cons_self
  · exact hlimit (h.length_le ht)

theorem noOperator {x : Except Stop (Reading n ts' α)} (hcloses : L.Avoids (·.kind = .operator))
    (hL : L.Completable) (hx : Reads L K ts x) : Reads L K ts (noOperator ts >>= fun _ => x) := by
  cases ts with
  | nil => exact hx
  | cons t rest =>
      by_cases ht : t.kind = .operator
      · have hstop : Parser.noOperator (t :: rest) = .error ⟨.secondOperator t, t :: rest⟩ :=
          if_pos ht
        rw [hstop]
        refine ⟨fun _ _ hr => (nomatch hr), fun _ s hs => ?_⟩
        obtain rfl := Except.error.inj hs
        refine .inr ⟨[], rfl, nofun, ⟨.expressionEnd, rfl⟩, hL, fun w p hw h => ?_⟩
        rw [words_cons_of_ne (by simp [ht])] at hw
        exact hcloses w p h t.word hw ht
      · have hgo : Parser.noOperator (t :: rest) = .ok () := if_neg ht
        rw [hgo]
        exact hx

/-- The choice made by an identifier: an assignment, or something else. -/
theorem ifIdentifier {K' : Stmt → Prospect} {x y : Except Stop (Reading n ts' α)}
    (hM : M.Avoids (·.kind = .identifier))
    (hx : Reads (.phrase Grammar.IsAssignment K') K ts x) (hy : Reads M K ts y) :
    Reads (.either (.phrase Grammar.IsAssignment K') M) K ts
      (if check .identifier none ts then x else y) := by
  split
  · next h =>
      obtain ⟨z, hz⟩ := check_identifier_iff.mp h
      exact .inl (.of_avoids hM hz rfl) hx
  · next h => exact .inr (.assignment (fun z hz => h (check_identifier_iff.mpr ⟨z, hz⟩)) _) hy

theorem ifWord {k : String} {x y : Except Stop (Reading n ts' α)}
    (hM : M.Avoids (· = .keyword k)) (hx : Reads (.word (.keyword k) L) K ts x)
    (hy : Reads M K ts y) :
    Reads (.either (.word (.keyword k) L) M) K ts (if checkWord k ts then x else y) := by
  split
  · next h => exact .inl (.of_avoids hM (checkWord_iff.mp h) rfl) hx
  · next h => exact .inr (.word (fun hk => h (checkWord_iff.mpr hk)) _) hy

/-- The choice made by the end of a block: `L` comes behind it, and `M` goes on with the block. -/
theorem reached {e : BlockEnd} {x y : Except Stop (Reading n ts' α)}
    (hL : ∀ w p, L w p → e.Meets w.head?)
    (hM : ∀ w p, M w p → ¬ e.Meets w.head? ∧ w.head? ≠ none)
    (hcomp : L.Completable) (hx : Reads L K ts x) (hy : Reads M K ts y) :
    Reads (.either L M) K ts (do if ← e.reached ts then x else y) := by
  rcases e.reached_cases ts with ⟨heq, hmeets⟩ | ⟨heq, hnot⟩ | ⟨exp, heq, hnot, hend⟩
  · rw [heq]
    exact .inl (fun w p hw h => (hM w p h).1 (hw ▸ hmeets)) hx
  · rw [heq]
    exact .inr (fun w p hw h => hnot (hw ▸ hL w p h)) hy
  · rw [heq]
    refine .refuse exp (.inl hcomp) (.either (fun w p hw h => ?_) (fun w p hw h => ?_))
    · exact hnot (hw ▸ hL w p h)
    · exact (hM w p h).2 (hw.trans hend)

/-! ### Single words -/

/-- A token that has been read, one of the words `A b`. -/
theorem next {A : β → Word} {M : β → Prospect} {t : Token} {b : β}
    {x : Except Stop (Reading n ts' α)} (hA : ∀ b c, A b = A c → b = c) (hb : t.word = A b)
    (ht : t.kind ≠ .endOfText) (hlimit : t.kind = .number → t.text.length ≤ Numeral.limit)
    (hx : Reads (M b) K ts x) : Reads (.oneOf A M) K (t :: ts) x := by
  apply of_isLexeme
  intro hlex
  have hread : t.word.IsReadable :=
    ⟨hlex t.word (words_cons_of_ne ht ts ▸ List.mem_cons_self), hlimit⟩
  have hl : Leads (.oneOf A M) (M b) [t] ts := by
    refine ⟨List.forall_mem_singleton.mpr hread, fun w p h => ⟨b, w, congrArg (· :: w) hb, h⟩, ?_⟩
    rintro w p _ ⟨c, rest, hrest, h⟩
    obtain ⟨hc, rfl⟩ := List.cons.inj hrest
    obtain rfl := hA b c (hb.symm.trans hc)
    exact h
  exact after hl hx

/-- A token that has been read, whatever its word. -/
theorem skip {t : Token} {x : Except Stop (Reading n ts' α)} (ht : t.kind ≠ .endOfText)
    (hnumber : t.kind ≠ .number) (hx : Reads L K ts x) :
    Reads (.word t.word L) K (t :: ts) x := by
  rw [Prospect.word_eq_oneOf]
  exact next (b := ()) (fun _ _ _ => rfl) rfl ht (fun h => absurd h hnumber) hx

/-- A token of a given kind, and perhaps with a given text, is read, and then more. -/
theorem expect {A : β → Word} {M : β → Prospect} {kind : TokenKind} {text : Option String}
    {f : Reading 1 ts Token → Except Stop (Reading n ts' α)}
    (hkind : kind ≠ .endOfText ∧ kind ≠ .number) (hA : ∀ b c, A b = A c → b = c)
    (hword : ∀ t : Token, t.word.IsLexeme → (t.isOf kind text = true ↔ ∃ b, t.word = A b))
    (hM : Prospect.Completable (.oneOf A M))
    (hf : ∀ r b, r.value.word = A b → Reads (M b) K r.rest (f r)) :
    Reads (.oneOf A M) K ts (Parser.expect kind text ts >>= f) := by
  apply of_isLexeme
  intro hlex
  cases ts with
  | nil =>
      refine .refuse _ hM ?_
      rintro w p hw ⟨b, rest, rfl, _⟩
      cases hw
  | cons t rest =>
      by_cases ht : t.isOf kind text = true
      · have htk : t.kind = kind := by
          unfold isOf at ht
          simpa using (Bool.and_eq_true_iff.mp ht).1
        have hne : t.kind ≠ .endOfText := htk ▸ hkind.1
        obtain ⟨b, hb⟩ := (hword t (hlex _ (words_cons_of_ne hne rest ▸ List.mem_cons_self))).mp ht
        have hexpect : Parser.expect kind text (t :: rest) = .ok ⟨t, rest, Nat.le_refl _⟩ :=
          if_pos ht
        rw [hexpect]
        exact next hA hb hne (fun h => absurd (htk.symm.trans h) hkind.2) (hf ⟨t, rest, _⟩ b hb)
      · have hexpect : Parser.expect kind text (t :: rest) =
            Parser.refuse (text.elim (.kind kind) .word) (t :: rest) := if_neg ht
        rw [hexpect]
        refine .refuse _ hM ?_
        -- A list of words that begins as the tokens do would begin with the word of `t`.
        rintro w p hw ⟨b, rest', rfl, _⟩
        have hb := word_of_head? hw.symm
        exact ht ((hword t (hb ▸ hlex _ (List.mem_of_head? hw.symm))).mpr ⟨b, hb⟩)

theorem word {a : Word} {text : Option String}
    {f : Reading 1 ts Token → Except Stop (Reading n ts' α)}
    (ha : a.IsReadable) (hne : a.kind ≠ .number)
    (hword : ∀ t : Token, t.word.IsLexeme → (t.isOf a.kind text = true ↔ t.word = a))
    (hL : L.Completable) (hf : ∀ r, Reads L K r.rest (f r)) :
    Reads (.word a L) K ts (Parser.expect a.kind text ts >>= f) := by
  rw [Prospect.word_eq_oneOf]
  refine expect ⟨ha.isLexeme.kind_ne, hne⟩ (fun _ _ _ => rfl) ?_ (.oneOf () ha hL) fun r _ _ => hf r
  intro t ht
  simp [hword t ht]

theorem keyword {k : String} {f : Reading 1 ts Token → Except Stop (Reading n ts' α)}
    (hk : k ∈ keywords) (hL : L.Completable) (hf : ∀ r, Reads L K r.rest (f r)) :
    Reads (.word (.keyword k) L) K ts (expectWord k ts >>= f) :=
  word (.keyword hk) nofun (fun _ _ => isOf_some_iff) hL hf

theorem optionalWord {k : String} {x : Except Stop (Reading n ts' α)}
    (hL : L.Avoids (· = .keyword k)) (hx : Reads L K (optionalWord k ts).rest x) :
    Reads (.either (.word (.keyword k) L) L) K ts x := by
  cases ts with
  | nil => exact .inr (.word (by simp) _) hx
  | cons t rest =>
      by_cases ht : t.isOf .keyword (some k) = true
      · have hread : Parser.optionalWord k (t :: rest) = ⟨true, rest, Nat.le_succ _⟩ := if_pos ht
        have hword : t.word = .keyword k := isOf_some_iff.mp ht
        have hkind : t.kind = .keyword := congrArg Word.kind hword
        have hne : t.kind ≠ .endOfText := by simp [hkind]
        rw [hread] at hx
        rw [← hword]
        exact .inl (.of_avoids hL (congrArg List.head? (words_cons_of_ne hne rest)) hword)
          (.skip hne (by simp [hkind]) hx)
      · have hread : Parser.optionalWord k (t :: rest) = ⟨false, t :: rest, Nat.le_refl _⟩ :=
          if_neg ht
        rw [hread] at hx
        exact .inr (.word (fun h => ht (isOf_some_iff.mpr (word_of_head? h))) _) hx

theorem assign {f : Reading 1 ts Token → Except Stop (Reading n ts' α)} (hL : L.Completable)
    (hf : ∀ r, Reads L K r.rest (f r)) :
    Reads (.word .assign L) K ts (Parser.expect .assign none ts >>= f) :=
  word .assign nofun
    (fun _ ht => isOf_none_iff.trans ⟨ht.eq_assign, fun h => congrArg Word.kind h⟩) hL hf

theorem semicolon {f : Reading 1 ts Token → Except Stop (Reading n ts' α)} (hL : L.Completable)
    (hf : ∀ r, Reads L K r.rest (f r)) :
    Reads (.word .semicolon L) K ts (Parser.expect .semicolon none ts >>= f) :=
  word .semicolon nofun
    (fun _ ht => isOf_none_iff.trans ⟨ht.eq_semicolon, fun h => congrArg Word.kind h⟩) hL hf

theorem identifier {M : String → Prospect} {f : Reading 1 ts Token → Except Stop (Reading n ts' α)}
    (hM : ∀ x, (M x).Completable) (hf : ∀ r, Reads (M r.value.text) K r.rest (f r)) :
    Reads (.oneOf .identifier M) K ts (Parser.expect .identifier none ts >>= f) := by
  refine expect ⟨nofun, nofun⟩ (fun _ _ h => congrArg Word.text h) ?_ (.identifier hM) ?_
  · intro t _
    exact isOf_none_iff.trans ⟨fun h => ⟨t.text, congrArg (Word.mk · t.text) h⟩,
      fun ⟨x, h⟩ => congrArg Word.kind h⟩
  · intro r x hx
    obtain rfl : r.value.text = x := congrArg Word.text hx
    exact hf r

theorem operator {M : Arithmetic → Prospect}
    {f : Reading 1 ts Token → Except Stop (Reading n ts' α)} (hM : ∀ o, (M o).Completable)
    (hf : ∀ r o, r.value.text = o.symbol → Reads (M o) K r.rest (f r)) :
    Reads (.oneOf .operator M) K ts (Parser.expect .operator none ts >>= f) := by
  refine expect ⟨nofun, nofun⟩ ?_ ?_ (.oneOf .add (.operator .add) (hM .add)) ?_
  · intro b c h
    have hsymbol := congrArg (fun w => Arithmetic.ofSymbol? w.text) h
    simpa [Word.operator] using hsymbol
  · intro t ht
    exact isOf_none_iff.trans ⟨ht.exists_operator, fun ⟨o, h⟩ => congrArg Word.kind h⟩
  · exact fun r o ho => hf r o (congrArg Word.text ho)

theorem comparison {M : Comparison → Prospect}
    {f : Reading 1 ts Token → Except Stop (Reading n ts' α)} (hM : ∀ o, (M o).Completable)
    (hf : ∀ r o, r.value.text = o.symbol → Reads (M o) K r.rest (f r)) :
    Reads (.oneOf .comparison M) K ts (Parser.expect .comparison none ts >>= f) := by
  refine expect ⟨nofun, nofun⟩ ?_ ?_ (.oneOf .eq (.comparison .eq) (hM .eq)) ?_
  · intro b c h
    have hsymbol := congrArg (fun w => Comparison.ofSymbol? w.text) h
    simpa [Word.comparison] using hsymbol
  · intro t ht
    exact isOf_none_iff.trans ⟨ht.exists_comparison, fun ⟨o, h⟩ => congrArg Word.kind h⟩
  · exact fun r o ho => hf r o (congrArg Word.text ho)

end Reads

end Parser

end CounterPrograms
