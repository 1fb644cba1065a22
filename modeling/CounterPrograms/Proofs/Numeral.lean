import CounterPrograms.Numeral
import Mathlib.Data.List.Forall2
import Mathlib.Data.List.Induction
import Mathlib.Data.Nat.Digits.Defs

/-!
# Numerals

The numeral of a number is read back as that number (`Numeral.value_digits`), so different numbers
have different numerals.  A number can be written iff its numeral is within the limit
(`Numeral.lt_bound_iff`).  What is read may be made of the decimal digits of any script
(`Numeral.IsDecimal`).
-/

namespace CounterPrograms

namespace Numeral

/-! ### Numerals that were written -/

theorem toList_text (n : Nat) : (text n).toList = digits n := by
  show (String.ofList (digits n)).toList = digits n
  simp

theorem isDigit_of_mem_digits {n : Nat} {c : Char} (hc : c ∈ digits n) : c.isDigit = true :=
  Nat.isDigit_of_mem_toDigits (by decide) (by decide) hc

@[simp]
theorem value_digits (n : Nat) : value (digits n) = n :=
  Nat.ofDigitChars_ten_toDigits

theorem value_of_read {ds : List Char} {n : Nat} (h : read ds = .ok n) : value ds = n := by
  unfold read at h
  split at h
  · exact Except.ok.inj h
  · cases h

theorem text_injective {m n : Nat} (h : text m = text n) : m = n := by
  have hd : digits m = digits n := by
    rw [← toList_text, ← toList_text, h]
  rw [← value_digits m, ← value_digits n, hd]

/-- Names made of the same letters and a numeral differ where the numbers do. -/
theorem append_text_injective {letters : String} {m n : Nat}
    (h : letters ++ text m = letters ++ text n) : m = n := by
  have hl := congrArg String.toList h
  rw [String.toList_append, String.toList_append] at hl
  exact text_injective (String.toList_inj.mp (List.append_cancel_left hl))

/-! ### Numbers that can be written -/

theorem bound_pos : 0 < bound := by
  unfold bound
  -- The power is not to be computed.
  generalize limit = k
  exact Nat.pow_pos (by decide)

theorem ofDigitChars_lt {ds : List Char} (h : ∀ c ∈ ds, c.isDigit = true) (n : Nat) :
    Nat.ofDigitChars 10 ds n < (n + 1) * Nat.pow 10 ds.length := by
  induction ds generalizing n with
  | nil => simp
  | cons c ds ih =>
      rw [List.forall_mem_cons] at h
      have hc : c.toNat - '0'.toNat ≤ 9 := by
        have hle : c.toNat ≤ 57 := (Char.isDigit_iff_toNat.mp h.1).2
        exact Nat.sub_le_sub_right hle 48
      have hpow : Nat.pow 10 (c :: ds).length = 10 * Nat.pow 10 ds.length := Nat.pow_succ'
      rw [Nat.ofDigitChars_cons, hpow]
      refine Nat.lt_of_lt_of_le (ih h.2 _) ?_
      rw [← Nat.mul_assoc]
      exact Nat.mul_le_mul_right _ (by omega)

/-- A number can be written iff its numeral is within the limit. -/
theorem lt_bound_iff {n : Nat} : n < bound ↔ (digits n).length ≤ limit := by
  have hpos : 0 < limit := by decide
  unfold bound
  -- The power is not to be computed.
  generalize limit = k at hpos ⊢
  exact (Nat.length_toDigits_le_iff (by decide) hpos).symm

theorem value_lt_bound {ds : List Char} (h : ∀ c ∈ ds, c.isDigit = true)
    (hlimit : ds.length ≤ limit) : value ds < bound := by
  have hlt := ofDigitChars_lt h 0
  rw [Nat.zero_add, Nat.one_mul] at hlt
  unfold bound
  -- The power is not to be computed.
  generalize limit = k at hlimit ⊢
  exact Nat.lt_of_lt_of_le hlt (Nat.pow_le_pow_right (by decide) hlimit)

theorem one_lt_bound : 1 < bound :=
  lt_bound_iff.mpr (by decide)

/-! ### Digits of any script -/

variable {c : Char} {cs : List Char} {n d : Nat}

/-- The characters are decimal digits, of any script, and `n` is the number they denote. -/
def IsDecimal (cs : List Char) (n : Nat) : Prop :=
  ∃ ds, List.Forall₂ (fun c d => decimalDigit? c = some d) cs ds ∧ n = Nat.ofDigits 10 ds.reverse

theorem lt_ten_of_decimalDigit? (h : decimalDigit? c = some d) : d < 10 := by
  unfold decimalDigit? at h
  obtain ⟨z, hz, rfl⟩ := Option.map_eq_some_iff.mp h
  have hrange := List.find?_some hz
  simp only [Bool.and_eq_true, decide_eq_true_eq] at hrange
  omega

theorem lt_ten_of_forall₂ {ds : List Nat}
    (h : List.Forall₂ (fun c d => decimalDigit? c = some d) cs ds) : ∀ d ∈ ds, d < 10 := by
  induction h with
  | nil => exact List.forall_mem_nil _
  | cons hd _ ih => exact List.forall_mem_cons.mpr ⟨lt_ten_of_decimalDigit? hd, ih⟩

theorem value_map_digitChar {ds : List Nat} (h : ∀ d ∈ ds, d < 10) :
    value (ds.map Nat.digitChar) = Nat.ofDigits 10 ds.reverse := by
  induction ds using List.reverseRecOn with
  | nil => rfl
  | append_singleton ds d ih =>
      have hd : d < 10 := h d (by simp)
      have hds := ih fun e he => h e (List.mem_append_left [d] he)
      unfold value at hds ⊢
      rw [List.map_append, Nat.ofDigitChars_append, hds, List.map_singleton,
        Nat.ofDigitChars_cons_digitChar_of_lt_ten hd, Nat.ofDigitChars_nil, List.reverse_append,
        List.reverse_singleton, List.singleton_append, Nat.ofDigits_cons, Nat.add_comm]

theorem plainDigits?_of_forall₂ {ds : List Nat}
    (h : List.Forall₂ (fun c d => decimalDigit? c = some d) cs ds) :
    plainDigits? cs = some (ds.map Nat.digitChar) := by
  unfold plainDigits?
  induction h with
  | nil => rfl
  | cons hd _ ih => simp [List.mapM_cons, hd, ih]

theorem plainDigits?_eq_none (hc : c ∈ cs) (hd : isDecimalDigit c = false) :
    plainDigits? cs = none := by
  unfold plainDigits?
  induction cs with
  | nil => cases hc
  | cons b cs ih =>
      rw [List.mapM_cons]
      rcases List.mem_cons.mp hc with rfl | hc
      · have hnone : decimalDigit? c = none := by simpa [isDecimalDigit] using hd
        simp [hnone]
      · simp [ih hc]

theorem exists_isDecimal (h : ∀ c ∈ cs, isDecimalDigit c = true) : ∃ n, IsDecimal cs n := by
  have hds : ∃ ds, List.Forall₂ (fun c d => decimalDigit? c = some d) cs ds := by
    induction cs with
    | nil => exact ⟨[], .nil⟩
    | cons c cs ih =>
        obtain ⟨d, hd⟩ := Option.isSome_iff_exists.mp (h c List.mem_cons_self)
        obtain ⟨ds, hds⟩ := ih fun b hb => h b (List.mem_cons_of_mem c hb)
        exact ⟨d :: ds, .cons hd hds⟩
  obtain ⟨ds, hds⟩ := hds
  exact ⟨_, ds, hds, rfl⟩

theorem IsDecimal.isDecimalDigit (h : IsDecimal cs n) : ∀ c ∈ cs, isDecimalDigit c = true := by
  obtain ⟨ds, hds, -⟩ := h
  intro c hc
  induction hds with
  | nil => cases hc
  | cons hd _ ih =>
      rcases List.mem_cons.mp hc with rfl | hc
      · exact Option.isSome_iff_exists.mpr ⟨_, hd⟩
      · exact ih hc

theorem digitChar_decimalDigit? (h : c.isDigit = true) :
    (decimalDigit? c).map Nat.digitChar = some c := by
  have hc : 48 ≤ c.toNat ∧ c.toNat ≤ 57 := by
    simpa [Char.isDigit, UInt32.le_iff_toNat_le] using h
  have hz : decimalZeros.find? (fun z => z ≤ c.toNat && c.toNat < z + 10) = some 48 := by
    rw [decimalZeros, List.find?_cons_of_pos]
    simp
    omega
  rw [decimalDigit?, hz, Option.map_some, Option.map_some, Option.some.injEq]
  apply Char.toNat_inj.mp
  rw [Nat.toNat_digitChar_of_lt_ten (by omega)]
  omega

theorem plainDigits?_of_isDigit (h : ∀ c ∈ cs, c.isDigit = true) :
    plainDigits? cs = some cs := by
  unfold plainDigits?
  induction cs with
  | nil => rfl
  | cons c cs ih =>
      rw [List.mapM_cons, digitChar_decimalDigit? (h c List.mem_cons_self),
        ih fun d hd => h d (List.mem_cons_of_mem c hd)]
      rfl

theorem plainDigits?_digits (n : Nat) : plainDigits? (digits n) = some (digits n) :=
  plainDigits?_of_isDigit fun _ => isDigit_of_mem_digits

/-- Digits in the limit are read as the number they denote. -/
theorem IsDecimal.exists_plainDigits? (h : IsDecimal cs n) (hlimit : cs.length ≤ limit) :
    ∃ digits, plainDigits? cs = some digits ∧ read digits = .ok n := by
  obtain ⟨ds, hds, rfl⟩ := h
  refine ⟨_, plainDigits?_of_forall₂ hds, ?_⟩
  unfold read
  rw [List.length_map, ← hds.length_eq, if_pos hlimit,
    value_map_digitChar (lt_ten_of_forall₂ hds)]

end Numeral

end CounterPrograms
