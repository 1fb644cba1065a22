import CounterPrograms.Program.Reader
import CounterPrograms.Proofs.Program.Phrases
import CounterPrograms.Proofs.Token.Spelling

/-!
# Which texts are programs

A text is read as a program iff the grammar derives the program from its words, and as no more than
one (`Program.parse_eq_ok_iff_isProgram`).  Where it is no program, reading stops at the first token
with which no program goes on (`Program.stops_at_first`).  Both suppose that the numerals of the
text are within the limit; a longer one is an error of another kind.
-/

namespace CounterPrograms

open Token Grammar

namespace Parser

/-! ### Up to the end -/

theorem meets_of_block (l : Option Language) (e : BlockEnd) (ts : List Token) :
    (block l e ts).Ensures fun r => e.Meets (words r.rest).head? := by
  have hreached : (e.reached ts).Ensures fun b => b = true → e.Meets (words ts).head? := by
    rcases e.reached_cases ts with ⟨heq, h⟩ | ⟨heq, _⟩ | ⟨x, heq, _⟩
    · exact heq ▸ .pure fun _ => h
    · exact heq ▸ .pure nofun
    · exact heq ▸ .error _
  rw [block]
  refine .bind hreached fun b hb => ?_
  split
  · next h => exact .pure (hb h)
  · refine .bind (.trivial (statement l ts)) fun first _ => ?_
    have shorter : first.rest.length < ts.length := by
      have := first.taken
      omega
    exact .bind (meets_of_block l e first.rest) fun others h => .pure h
termination_by ts.length

theorem end_of_instructions (ts : List Token) :
    (instructions ts).Ensures fun r => (words r.rest).head? = none := by
  rw [instructions]
  split
  · next h => exact .pure (atEnd_iff.mp h)
  · refine .bind (.trivial (instruction ts)) fun first _ => ?_
    have shorter : first.rest.length < ts.length := by
      have := first.taken
      omega
    exact .bind (end_of_instructions first.rest) fun others h => .pure h
termination_by ts.length

theorem end_of_program (l : Language) (ts : List Token) :
    (program l ts).Ensures fun r => (words r.rest).head? = none := by
  unfold program
  split
  · exact .bind (meets_of_block _ .text ts) fun ss h => .pure h
  · exact .bind (meets_of_block _ .text ts) fun ss h => .pure h
  · exact .bind (end_of_instructions ts) fun is h => .pure h

/-- The parser is right about the prospect that a whole program comes. -/
theorem reads_whole (l : Language) (ts : List Token) :
    Reads (IsProgram l) (fun p w q => w = [] ∧ p = q) ts (program l ts) := by
  have hphrase : (Prospect.phrase (IsProgram l) fun p w q => w = [] ∧ p = q) = IsProgram l := by
    apply Prospect.ext
    · rintro w p ⟨u, _, _, rfl, h, rfl, rfl⟩
      simpa using h
    · exact fun w p h => ⟨w, p, [], (List.append_nil w).symm, h, rfl, rfl⟩
  have h := reads_program l (K := fun p w q => w = [] ∧ p = q)
    (fun p => ⟨[], p, nofun, rfl, rfl⟩) (fun p w q h => by simp [h.1]) ts
  rwa [hphrase] at h

/-! ### Of a whole text -/

/-- The tokens of a text: first those of readable words, and last the mark of its end. -/
theorem exists_of_ofText {text : String} {ts : List Token} (h : ofText text = .ok ts) :
    (∀ a ∈ words ts, a.IsLexeme) ∧ ∃ done t, ts = done ++ [t] ∧ t.kind = .endOfText := by
  obtain ⟨ws, hspells, hwords⟩ := exists_spells_of_ofText h
  obtain ⟨done, t, hts, ht, rfl⟩ := exists_of_map_word hwords hspells.isLexeme
  exact ⟨hspells.isLexeme, done, t, hts, ht⟩

/-- What was read from a whole text is what the grammar derives from its words, and all of them were
readable. -/
theorem isProgram_iff_of_ok {l : Language} {text : String} {ts : List Token}
    (hts : ofText text = .ok ts) {r : Reading 0 ts Program} (hr : program l ts = .ok r) :
    (∀ a ∈ words ts, a.IsReadable) ∧ ∀ p, IsProgram l (words ts) p ↔ r.value = p := by
  obtain ⟨hlex, _⟩ := exists_of_ofText hts
  obtain ⟨done, hsplit, hleads⟩ := (reads_whole l ts).ok hlex r hr
  have hrest : words r.rest = [] := List.head?_eq_none_iff.mp (end_of_program l ts r hr)
  have hwords : words ts = done.map word := by
    rw [hsplit, words_append_of_readable hleads.readable, hrest, List.append_nil]
  rw [hwords]
  refine ⟨List.forall_mem_map.mpr hleads.readable, fun p => ⟨fun h => ?_, fun h => ?_⟩⟩
  · exact (hleads.narrow [] p (by rw [hrest]) (by rwa [List.append_nil])).2
  · have := hleads.extend [] p ⟨rfl, h⟩
    rwa [List.append_nil] at this

/-- Reading stopped at a token, behind words with which a program can begin and before one with
which none of them goes on. -/
theorem exists_blocks_of_error {l : Language} {text : String} {ts : List Token}
    (hts : ofText text = .ok ts) (hlimit : ∀ a ∈ words ts, a.IsReadable) {s : Stop}
    (hs : program l ts = .error s) :
    ∃ done t rest, ts = done ++ t :: rest ∧ s.rest = t :: rest ∧ Blocks (IsProgram l) done s := by
  obtain ⟨hlex, front, last, hfront, hlast⟩ := exists_of_ofText hts
  rcases (reads_whole l ts).error hlex s hs with ⟨a, ha, hlong⟩ | ⟨done, hsplit, hblocks⟩
  · exact absurd (hlimit a ha) hlong
  · cases hrest : s.rest with
    | nil =>
        -- The mark of the end has not been read, for it is no lexeme.
        have hmem : last ∈ done := by
          rw [hrest, List.append_nil] at hsplit
          rw [← hsplit, hfront]
          exact List.mem_append_right _ (List.mem_singleton_self last)
        exact absurd hlast (hblocks.readable last hmem).isLexeme.kind_ne
    | cons t rest => exact ⟨done, t, rest, hrest ▸ hsplit, rfl, hblocks⟩

end Parser

theorem TokenReader.read_of_error {r : TokenReader} {n : Nat} {α : Type} {s : Parser.Stop}
    {phrase : (ts : List Token) → Except Parser.Stop (Parser.Reading n ts α)}
    (h : phrase r.rest = .error s) : r.read phrase = (.error s.error, r.leaving s.rest) := by
  unfold read
  rw [h]

namespace Program

variable {l : Language} {text : String} {ts : List Token}

/-! ### Programs and their words -/

theorem parse_of_ofText (hts : ofText text = .ok ts) :
    parse l text = (ofTokens l ts).mapError .parse := by
  unfold parse
  rw [hts]

theorem ofTokens_eq_ok_iff {p : Program} :
    ofTokens l ts = .ok p ↔ ∃ r, Parser.program l ts = .ok r ∧ r.value = p := by
  unfold ofTokens
  cases Parser.program l ts with
  | ok r => simp
  | error s => simp

theorem ofTokens_eq_error_iff {e : ParseError} :
    ofTokens l ts = .error e ↔ ∃ s, Parser.program l ts = .error s ∧ s.error = e := by
  unfold ofTokens
  cases Parser.program l ts with
  | ok r => simp
  | error s => simp

theorem parse_eq_ok_iff (hts : ofText text = .ok ts) {p : Program} :
    parse l text = .ok p ↔ ∃ r, Parser.program l ts = .ok r ∧ r.value = p := by
  rw [parse_of_ofText hts, ← ofTokens_eq_ok_iff]
  cases ofTokens l ts <;> simp [Except.mapError]

theorem parse_eq_error_iff (hts : ofText text = .ok ts) {e : ParseError} :
    parse l text = .error (.parse e) ↔ ∃ s, Parser.program l ts = .error s ∧ s.error = e := by
  rw [parse_of_ofText hts, ← ofTokens_eq_error_iff]
  cases ofTokens l ts <;> simp [Except.mapError]

theorem isReadable_of_limit (hts : ofText text = .ok ts)
    (hlimit : ∀ t ∈ ts, t.kind = .number → t.text.length ≤ Numeral.limit) :
    ∀ a ∈ words ts, a.IsReadable := by
  intro a ha
  refine ⟨(Parser.exists_of_ofText hts).1 a ha, ?_⟩
  obtain ⟨t, ht, rfl⟩ := List.mem_map.mp ha
  exact hlimit t (List.takeWhile_subset _ ht)

/-- A program is read from every text that spells readable words which the grammar derives it
from. -/
theorem parse_of_spells {ws : List Word} {p : Program} (h : Spells text.toList ws)
    (hread : ∀ a ∈ ws, a.IsReadable) (hp : IsProgram l ws p) :
    ∃ ts, ofText text = .ok ts ∧ parse l text = .ok p ∧ words ts = ws := by
  obtain ⟨ts, hts, hwords⟩ := ofText_of_spells h
  obtain ⟨_, _, _, _, rfl⟩ := exists_of_map_word hwords h.isLexeme
  refine ⟨ts, hts, ?_, rfl⟩
  cases hx : Parser.program l ts with
  | ok r =>
      exact (parse_eq_ok_iff hts).mpr ⟨r, hx, ((Parser.isProgram_iff_of_ok hts hx).2 p).mp hp⟩
  | error s =>
      -- The words of `p` go on where reading stopped, which is what they cannot do.
      obtain ⟨done, t, rest, hsplit, hrest, hblocks⟩ := Parser.exists_blocks_of_error hts hread hx
      rw [hsplit, Parser.words_append_of_readable hblocks.readable] at hp
      exact absurd hp (hblocks.dead _ p (by rw [hrest]))

/-- A text is read as a program iff the grammar derives the program from its words.  No other
program is derived from them then, and where none is, the error is about a token. -/
theorem parse_eq_ok_iff_isProgram (hts : ofText text = .ok ts)
    (hlimit : ∀ t ∈ ts, t.kind = .number → t.text.length ≤ Numeral.limit) :
    (∀ p, parse l text = .ok p ↔ IsProgram l (words ts) p) ∧
      (∀ p q, IsProgram l (words ts) p → IsProgram l (words ts) q → p = q) ∧
      ((∀ p, ¬ IsProgram l (words ts) p) →
        ∃ e x found, parse l text = .error (.parse e) ∧ e.mismatch? = some (x, found)) := by
  cases hx : Parser.program l ts with
  | ok r =>
      have hiff := (Parser.isProgram_iff_of_ok hts hx).2
      refine ⟨fun p => ?_, fun p q hp hq => ?_, fun hno => ?_⟩
      · rw [parse_eq_ok_iff hts, hx, hiff]
        simp
      · exact ((hiff p).mp hp).symm.trans ((hiff q).mp hq)
      · exact absurd ((hiff r.value).mpr rfl) (hno _)
  | error s =>
      obtain ⟨done, t, rest, hsplit, hrest, hblocks⟩ :=
        Parser.exists_blocks_of_error hts (isReadable_of_limit hts hlimit) hx
      have hno : ∀ p, ¬ IsProgram l (words ts) p := by
        intro p h
        rw [hsplit, Parser.words_append_of_readable hblocks.readable] at h
        exact hblocks.dead _ p (by rw [hrest]) h
      refine ⟨fun p => ?_, fun p _ hp => absurd hp (hno p), fun _ => ?_⟩
      · rw [parse_eq_ok_iff hts, hx]
        simp [hno p]
      · obtain ⟨x, hmismatch⟩ := hblocks.mismatch
        exact ⟨s.error, x, _, (parse_eq_error_iff hts).mpr ⟨s, hx, rfl⟩, hmismatch⟩

/-- A block within a block. -/
theorem parse_eq_ok_iff_isProgram_nested :
    ∃ ts, ofText "IF a <= 1 THEN ELSE WHILE b != a DO b := b - 1; END END" = .ok ts ∧
      (∀ t ∈ ts, t.kind = .number → t.text.length ≤ Numeral.limit) ∧
      ∃ p, parse .whileDo "IF a <= 1 THEN ELSE WHILE b != a DO b := b - 1; END END" = .ok p ∧
        IsProgram .whileDo (words ts) p := by
  obtain ⟨ts, hts, hrest⟩ : ∃ ts,
      ofText "IF a <= 1 THEN ELSE WHILE b != a DO b := b - 1; END END" = .ok ts ∧
      decide ((∀ t ∈ ts, t.kind = .number → t.text.length ≤ Numeral.limit) ∧
        (parse .whileDo
          "IF a <= 1 THEN ELSE WHILE b != a DO b := b - 1; END END").toOption.any fun _ => true) =
          true :=
    Except.exists_of_any (by decide +kernel)
  obtain ⟨hlimit, hp⟩ := of_decide_eq_true hrest
  obtain ⟨p, hp, _⟩ := Except.exists_of_any hp
  exact ⟨ts, hts, hlimit, p, hp, ((parse_eq_ok_iff_isProgram hts hlimit).1 p).mp hp⟩

/-! ### Where reading stops -/

/-- The words of a text which is a program of the given language. -/
def HasWords (l : Language) (ws : List Word) : Prop :=
  ∃ text ts p, ofText text = .ok ts ∧ parse l text = .ok p ∧ words ts = ws

theorem hasWords_iff {ws : List Word} :
    HasWords l ws ↔ (∀ a ∈ ws, a.IsReadable) ∧ ∃ p, IsProgram l ws p := by
  constructor
  · rintro ⟨text, ts, p, hts, hp, rfl⟩
    obtain ⟨r, hr, rfl⟩ := (parse_eq_ok_iff hts).mp hp
    obtain ⟨hread, hiff⟩ := Parser.isProgram_iff_of_ok hts hr
    exact ⟨hread, r.value, (hiff _).mpr rfl⟩
  · rintro ⟨hread, p, hp⟩
    obtain ⟨ts, hts, hparse, hwords⟩ :=
      parse_of_spells (spells_spaced fun a ha => (hread a ha).isLexeme) hread hp
    exact ⟨Word.spaced ws, ts, p, hts, hparse, hwords⟩

theorem describe_eq_iff {t : Token} : describe (some t) = "EOF" ↔ t.kind = .endOfText := by
  constructor
  · intro h
    by_contra hne
    have h := congrArg String.toList h
    simp only [describe, if_neg hne, String.toList_append] at h
    cases hk : t.kind with
    | endOfText => exact hne hk
    | _ =>
        rw [hk] at h
        simp [TokenKind.name] at h
  · exact fun h => if_pos h

/-- Reading stops at the first token with which no program goes on: the tokens before it begin a
program, but they do not together with it, nor are they one if it is the end.  The error is about
this token. -/
theorem stops_at_first {e : ParseError} (hts : ofText text = .ok ts)
    (hlimit : ∀ t ∈ ts, t.kind = .number → t.text.length ≤ Numeral.limit)
    (he : parse l text = .error (.parse e)) :
    ∃ r t, (TokenReader.ofTokens ts).read (Parser.program l) = (.error e, r) ∧
      r.current? = some t ∧
      (∃ ws, HasWords l ws ∧ (ts.take r.position).map word <+: ws) ∧
      (t.kind ≠ .endOfText →
        ∀ ws, HasWords l ws → ¬ (ts.take (r.position + 1)).map word <+: ws) ∧
      (t.kind = .endOfText → ¬ HasWords l ((ts.take r.position).map word)) ∧
      (∃ x, e.mismatch? = some (x, some t)) ∧
      (describe (some t) = "EOF" ↔ t.kind = .endOfText) := by
  obtain ⟨s, hs, rfl⟩ := (parse_eq_error_iff hts).mp he
  obtain ⟨done, t, rest, rfl, hrest, hblocks⟩ :=
    Parser.exists_blocks_of_error hts (isReadable_of_limit hts hlimit) hs
  have hread : (TokenReader.ofTokens (done ++ t :: rest)).read (Parser.program l) =
      (.error s.error, ⟨done ++ t :: rest, done.length⟩) := by
    have hplace : 0 + ((done ++ t :: rest).length - s.rest.length) = done.length := by
      rw [hrest, List.length_append]
      omega
    have hgo := TokenReader.read_of_error (r := .ofTokens (done ++ t :: rest)) hs
    rw [hgo, ← hplace]
    rfl
  have hdone : (done ++ t :: rest).take done.length = done := List.take_left
  have hnext : (done ++ t :: rest).take (done.length + 1) = done ++ [t] := by
    rw [List.take_length_add_append, List.take_succ_cons, List.take_zero]
  refine ⟨_, t, hread, ?_, ?_, ?_, ?_, ?_, describe_eq_iff⟩
  · simp [TokenReader.current?]
  · obtain ⟨more, p, hmore, hp⟩ := hblocks.viable
    refine ⟨done.map word ++ more, hasWords_iff.mpr ⟨?_, p, hp⟩, ?_⟩
    · exact List.forall_mem_append.mpr ⟨List.forall_mem_map.mpr hblocks.readable, hmore⟩
    · rw [hdone]
      exact List.prefix_append _ _
  · rintro hne ws hws ⟨more, rfl⟩
    obtain ⟨p, hp⟩ := (hasWords_iff.mp hws).2
    rw [hnext, List.map_append, List.append_assoc] at hp
    exact hblocks.dead _ p (by rw [hrest, words_cons_of_ne hne]; rfl) hp
  · intro hend hws
    obtain ⟨p, hp⟩ := (hasWords_iff.mp hws).2
    rw [hdone, ← List.append_nil (done.map word)] at hp
    exact hblocks.dead _ p (by rw [hrest, words_cons_of_eq hend]) hp
  · obtain ⟨x, hx⟩ := hblocks.mismatch
    rw [hrest] at hx
    exact ⟨x, hx⟩

/-- A third operand, where a semicolon belongs. -/
theorem stops_at_first_third :
    ∃ ts e r t, ofText "x := 1 + y - 2;" = .ok ts ∧
      (∀ t ∈ ts, t.kind = .number → t.text.length ≤ Numeral.limit) ∧
      parse .loop "x := 1 + y - 2;" = .error (.parse e) ∧
      (TokenReader.ofTokens ts).read (Parser.program .loop) = (.error e, r) ∧
      r.current? = some t ∧ ∃ x, e.mismatch? = some (x, some t) := by
  obtain ⟨ts, hts, hrest⟩ : ∃ ts, ofText "x := 1 + y - 2;" = .ok ts ∧
      decide ((∀ t ∈ ts, t.kind = .number → t.text.length ≤ Numeral.limit) ∧
        parse .loop "x := 1 + y - 2;" =
          .error (.parse (.secondOperator ⟨.operator, "-", 1, 12⟩))) = true :=
    Except.exists_of_any (by decide +kernel)
  obtain ⟨hlimit, he⟩ := of_decide_eq_true hrest
  obtain ⟨r, t, hread, ht, _, _, _, hx, _⟩ := stops_at_first hts hlimit he
  exact ⟨ts, _, r, t, hts, hlimit, he, hread, ht, hx⟩

end Program

end CounterPrograms
