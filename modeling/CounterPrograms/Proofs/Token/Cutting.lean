import CounterPrograms.Proofs.Position
import CounterPrograms.Proofs.Token.Spelling
import Mathlib.Data.Set.Subsingleton

/-!
# How a text is cut into tokens

A text that has been scanned without an error is cut into pieces, each a token with the blanks
behind it.  No character is lost, every token is a lexeme of its kind which does not go on in the
character behind it, and its line and column are those of its first character (`Token.IsCutting`).

`Token.ofText_eq_ok_iff_tokenizes` says that the scanner gives exactly such tokens and that a text
can be cut in one way only.  Where `Spells` leaves out the places of tokens, the proofs here keep
the characters `done` in front of the text, which say where each of them stands.
-/

namespace CounterPrograms

namespace Token

/-- A token and the blanks behind it. -/
structure Piece where
  token : Token
  gap : List Char

/-- The text of blanks and the pieces behind them. -/
def joined (first : List Char) (pieces : List Piece) : List Char :=
  first ++ pieces.flatMap fun q => q.token.text.toList ++ q.gap

/-- Whether the token has the line and the column of a position. -/
def IsAt (t : Token) (p : Position) : Prop :=
  t.line = p.line ∧ t.column = p.column

/-- Behind the characters `done`, a text can be cut into the blanks `first` and the given pieces,
and `last` marks its end. -/
structure IsCutting (done first : List Char) (pieces : List Piece) (last : Token) : Prop where
  first_blank : ∀ c ∈ first, isBlank c = true
  gap_blank : ∀ q ∈ pieces, ∀ c ∈ q.gap, isBlank c = true
  isLexeme : ∀ q ∈ pieces, q.token.word.IsLexeme
  isAt : ∀ before q after, pieces = before ++ q :: after →
    q.token.IsAt (.behind (done ++ joined first before))
  endsBefore : ∀ before q after, pieces = before ++ q :: after →
    q.token.word.EndsBefore (joined q.gap after)
  last_word : last.word = Word.endOfText
  last_isAt : last.IsAt (.behind (done ++ joined first pieces))

/-- The text is made of blanks and of all given tokens but the last, which marks its end. -/
def Tokenizes (text : List Char) (ts : List Token) : Prop :=
  ∃ first pieces last, text = joined first pieces ∧ ts = pieces.map Piece.token ++ [last] ∧
    IsCutting [] first pieces last

/-! ### Cuttings piece by piece -/

@[simp]
theorem joined_nil : joined [] [] = [] := rfl

theorem joined_eq (first : List Char) (pieces : List Piece) :
    joined first pieces = first ++ joined [] pieces := rfl

@[simp]
theorem joined_cons (q : Piece) (pieces : List Piece) :
    joined [] (q :: pieces) = q.token.text.toList ++ joined q.gap pieces := by
  simp [joined]

/-- What holds of each element and its neighbours holds of the first element and of those behind. -/
theorem forall_split_cons_iff {α : Type} {x : α} {xs : List α} {P : List α → α → List α → Prop} :
    (∀ before y after, x :: xs = before ++ y :: after → P before y after) ↔
      P [] x xs ∧ ∀ before y after, xs = before ++ y :: after → P (x :: before) y after := by
  constructor
  · intro h
    refine ⟨h [] x xs rfl, fun before y after hsplit => h (x :: before) y after ?_⟩
    rw [hsplit, List.cons_append]
  · rintro ⟨hhead, htail⟩ before y after hsplit
    cases before with
    | nil =>
        obtain ⟨rfl, rfl⟩ := List.cons.inj hsplit
        exact hhead
    | cons z before =>
        obtain ⟨rfl, htail'⟩ := List.cons.inj hsplit
        exact htail before y after htail'

variable {done first : List Char} {pieces : List Piece} {last : Token}

theorem isCutting_blanks_iff :
    IsCutting done first pieces last ↔
      (∀ c ∈ first, isBlank c = true) ∧ IsCutting (done ++ first) [] pieces last := by
  have hjoined : ∀ before, done ++ joined first before = done ++ first ++ joined [] before := by
    intro before
    rw [List.append_assoc, ← joined_eq]
  constructor
  · intro h
    refine ⟨h.first_blank, List.forall_mem_nil _, h.gap_blank, h.isLexeme, ?_, h.endsBefore,
      h.last_word, ?_⟩
    · intro before q after hsplit
      rw [← hjoined]
      exact h.isAt before q after hsplit
    · rw [← hjoined]
      exact h.last_isAt
  · rintro ⟨hblank, h⟩
    refine ⟨hblank, h.gap_blank, h.isLexeme, ?_, h.endsBefore, h.last_word, ?_⟩
    · intro before q after hsplit
      rw [hjoined]
      exact h.isAt before q after hsplit
    · rw [hjoined]
      exact h.last_isAt

theorem isCutting_nil_iff :
    IsCutting done [] [] last ↔ last.word = Word.endOfText ∧ last.IsAt (.behind done) := by
  constructor
  · intro h
    have hat := h.last_isAt
    rw [joined_nil, List.append_nil] at hat
    exact ⟨h.last_word, hat⟩
  · rintro ⟨hword, hat⟩
    refine ⟨List.forall_mem_nil _, List.forall_mem_nil _, List.forall_mem_nil _, ?_, ?_, hword, ?_⟩
    · intro before q after hsplit
      simp at hsplit
    · intro before q after hsplit
      simp at hsplit
    · rw [joined_nil, List.append_nil]
      exact hat

/-- The first piece of a cutting, and the cutting behind its token. -/
theorem isCutting_cons_iff {q : Piece} :
    IsCutting done [] (q :: pieces) last ↔
      q.token.word.IsLexeme ∧ q.token.IsAt (.behind done) ∧
        q.token.word.EndsBefore (joined q.gap pieces) ∧
        IsCutting (done ++ q.token.text.toList) q.gap pieces last := by
  have hjoined : ∀ before, done ++ joined [] (q :: before) =
      done ++ q.token.text.toList ++ joined q.gap before := by
    intro before
    rw [joined_cons, List.append_assoc]
  constructor
  · rintro ⟨_, hgap, hlexeme, hat, hend, hword, hlast⟩
    rw [List.forall_mem_cons] at hgap hlexeme
    rw [forall_split_cons_iff] at hat hend
    simp only [hjoined] at hat hlast
    rw [joined_nil, List.append_nil] at hat
    exact ⟨hlexeme.1, hat.1, hend.1, hgap.1, hgap.2, hlexeme.2, hat.2, hend.2, hword, hlast⟩
  · rintro ⟨hlexeme, hat, hend, h⟩
    refine ⟨List.forall_mem_nil _, List.forall_mem_cons.mpr ⟨h.first_blank, h.gap_blank⟩,
      List.forall_mem_cons.mpr ⟨hlexeme, h.isLexeme⟩, forall_split_cons_iff.mpr ⟨?_, ?_⟩,
      forall_split_cons_iff.mpr ⟨hend, h.endsBefore⟩, h.last_word, ?_⟩
    · rw [joined_nil, List.append_nil]
      exact hat
    · simp only [hjoined]
      exact h.isAt
    · rw [hjoined]
      exact h.last_isAt

/-! ### Scanning -/

theorem scan_blanks (hfirst : ∀ c ∈ first, isBlank c = true) (text : List Char) (p : Position) :
    scan (first ++ text) p = scan text (p.afterAll first) := by
  induction first generalizing p with
  | nil => rfl
  | cons c first ih =>
      rw [List.forall_mem_cons] at hfirst
      rw [List.cons_append, scan, if_pos hfirst.1, ih hfirst.2, Position.afterAll_cons]

theorem eq_of_isAt {t : Token} {p : Position} (h : t.IsAt p) :
    t = ⟨t.word.kind, t.word.text, p.line, p.column⟩ := by
  obtain ⟨hline, hcolumn⟩ := h
  rw [← hline, ← hcolumn]
  rfl

theorem scan_token {t : Token} {text : List Char} (hw : t.word.IsLexeme)
    (hat : t.IsAt (.behind done)) (hend : t.word.EndsBefore text) :
    scan (t.text.toList ++ text) (.behind done) =
      { scan text (.behind (done ++ t.text.toList)) with
        tokens := t :: (scan text (.behind (done ++ t.text.toList))).tokens } := by
  have hscan := scan_lexeme hw hend (.behind done)
  rwa [← eq_of_isAt hat, ← Position.behind_append] at hscan

/-- The scanner finds the pieces of a cutting. -/
theorem IsCutting.scan (h : IsCutting done first pieces last) :
    (Token.scan (joined first pieces) (.behind done)).error = none ∧
      (Token.scan (joined first pieces) (.behind done)).tokens =
        pieces.map Piece.token ++ [last] := by
  induction pieces generalizing done first with
  | nil =>
      obtain ⟨hblank, hrest⟩ := isCutting_blanks_iff.mp h
      obtain ⟨hword, hat⟩ := isCutting_nil_iff.mp hrest
      rw [joined_eq, scan_blanks hblank, ← Position.behind_append, joined_nil, Token.scan,
        eq_of_isAt hat, hword]
      exact ⟨rfl, rfl⟩
  | cons q pieces ih =>
      obtain ⟨hblank, hrest⟩ := isCutting_blanks_iff.mp h
      obtain ⟨hlexeme, hat, hend, hnext⟩ := isCutting_cons_iff.mp hrest
      obtain ⟨herror, htokens⟩ := ih hnext
      rw [joined_eq, scan_blanks hblank, ← Position.behind_append, joined_cons,
        scan_token hlexeme hat hend]
      exact ⟨herror, congrArg (q.token :: ·) htokens⟩

/-- What was scanned without an error can be cut into the tokens found. -/
theorem exists_cutting_of_scan {text : List Char} {p : Position}
    (h : (Token.scan text p).error = none) :
    ∀ done, p = .behind done → ∃ first pieces last, text = joined first pieces ∧
      (Token.scan text p).tokens = pieces.map Piece.token ++ [last] ∧
      IsCutting done first pieces last := by
  induction text, p using Token.scan.induct with
  | case1 p =>
      rintro done rfl
      rw [Token.scan]
      exact ⟨[], [], _, rfl, rfl, isCutting_nil_iff.mpr ⟨rfl, rfl, rfl⟩⟩
  | case2 c rest p hc ih =>
      intro done hp
      rw [Token.scan, if_pos hc] at h ⊢
      obtain ⟨first, pieces, last, rfl, htokens, hcut⟩ :=
        ih h (done ++ [c]) (by rw [hp, Position.behind_concat])
      obtain ⟨hblank, hcut⟩ := isCutting_blanks_iff.mp hcut
      rw [List.append_assoc] at hcut
      exact ⟨c :: first, pieces, last, rfl, htokens,
        isCutting_blanks_iff.mpr ⟨List.forall_mem_cons.mpr ⟨hc, hblank⟩, hcut⟩⟩
  | case3 c rest p hc hlex =>
      rw [Token.scan, if_neg hc, hlex] at h
      cases h
  | case4 c rest p hc kind more hlex text ih =>
      intro done hp
      rw [Token.scan, if_neg hc, hlex] at h ⊢
      obtain ⟨tail, after, rfl, rfl, hw, hend⟩ := cutsOff_of_lexeme? hlex
      simp only [text, List.take_left, List.drop_left] at h ih ⊢
      obtain ⟨first, pieces, last, rfl, htokens, hcut⟩ :=
        ih h (done ++ c :: tail) (by rw [hp, Position.behind_append])
      let t : Token := ⟨kind, String.ofList (c :: tail), p.line, p.column⟩
      have htext : t.text.toList = c :: tail := String.toList_ofList
      have hat : t.IsAt (.behind done) := hp ▸ ⟨rfl, rfl⟩
      rw [← htext] at hcut
      refine ⟨[], ⟨t, first⟩ :: pieces, last, ?_, congrArg (t :: ·) htokens,
        isCutting_cons_iff.mpr ⟨hw, hat, hend, hcut⟩⟩
      rw [joined_cons, htext, List.cons_append]

/-- The tokens of a text are those that it can be cut into: no character is lost, each token is a
lexeme as long as it can be, and it stands where its line and column say.  A text can be cut into
tokens in one way only. -/
theorem ofText_eq_ok_iff_tokenizes (text : String) :
    (∀ ts, ofText text = .ok ts ↔ Tokenizes text.toList ts) ∧
      {ts | Tokenizes text.toList ts}.Subsingleton := by
  have hscan : ∀ {ts}, Tokenizes text.toList ts → ofText text = .ok ts := by
    rintro ts ⟨first, pieces, last, htext, rfl, hcut⟩
    obtain ⟨herror, htokens⟩ := hcut.scan
    rw [← htext, Position.behind_nil] at herror htokens
    rw [ofText, herror, htokens]
  refine ⟨fun ts => ⟨fun h => ?_, hscan⟩, fun ts hts us hus => ?_⟩
  · unfold ofText at h
    dsimp only at h
    split at h
    · next herror =>
        obtain rfl := Except.ok.inj h
        obtain ⟨first, pieces, last, htext, htokens, hcut⟩ :=
          exists_cutting_of_scan herror [] Position.behind_nil.symm
        exact ⟨first, pieces, last, htext, htokens, hcut⟩
    · cases h
  · exact Except.ok.inj ((hscan hts).symm.trans (hscan hus))

example : ofText "x<=7\n 42y" = .ok [⟨.identifier, "x", 1, 1⟩, ⟨.comparison, "<=", 1, 2⟩,
    ⟨.number, "7", 1, 4⟩, ⟨.number, "42", 2, 2⟩, ⟨.identifier, "y", 2, 4⟩,
    ⟨.endOfText, "", 2, 5⟩] := by decide +kernel

end Token

end CounterPrograms
