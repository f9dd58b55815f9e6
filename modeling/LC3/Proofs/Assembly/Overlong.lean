import LC3.Proofs.Assembly.Literal
import LC3.Proofs.Assembly.Readable
import LC3.Proofs.Computation

/-!
# Numerals that are too long

Which tokens cannot be read as literals, by their characters (`value?_eq_error`), and which numbers
cannot be written in decimal (`decimal_eq_error`). An operand is at fault if it cannot be read, or
if a diagnostic would show its number and cannot (`OperandFault`).
-/

namespace LC3

/-! ## Reading -/

namespace Numeral

theorem readDecimal_of_head {c : Char} (h : digitValue? 10 c = none) (s : List Char) :
    readDecimal (c :: s) = .ok none := by
  simp [readDecimal, digitValues?, h]

/-- More decimal digits than are read. -/
structure LongDigits (s : List Char) (count : Nat) : Prop where
  digits : ∀ c ∈ s, (digitValue? 10 c).isSome = true
  length : s.length = count
  long : maxDigits < count

theorem exists_digitValues? {base : Nat} {s : List Char} (hne : s ≠ [])
    (h : ∀ c ∈ s, (digitValue? base c).isSome = true) : ∃ ds, digitValues? base s = some ds := by
  unfold digitValues?
  rw [if_neg (by simpa using hne)]
  clear hne
  induction s with
  | nil => exact ⟨[], rfl⟩
  | cons c s ih =>
    obtain ⟨d, hd⟩ := Option.isSome_iff_exists.mp (h c (by simp))
    obtain ⟨ds, hds⟩ := ih fun c' hc' => h c' (by simp [hc'])
    exact ⟨d :: ds, by simp [hd, hds]⟩

theorem readDecimal_eq_error {s : List Char} {f : Fault} :
    readDecimal s = .error f ↔ ∃ count, LongDigits s count ∧ f = .numeralTooLong count := by
  unfold readDecimal
  constructor
  · intro h
    split at h
    · cases h
    · rename_i ds hds
      obtain ⟨hw, hlen⟩ := writes_of_digitValues? hds
      split at h
      · rename_i hl
        cases h
        refine ⟨ds.length, ⟨fun c hc => ?_, hlen.symm, hl⟩, rfl⟩
        obtain ⟨d, hd⟩ := hw.exists_digit hc
        rw [hd]
        rfl
      · cases h
  · rintro ⟨count, hl, rfl⟩
    have hlong := hl.long
    have hne : s ≠ [] := by
      rintro rfl
      have := hl.length
      simp at this
      omega
    obtain ⟨ds, hds⟩ := exists_digitValues? hne hl.digits
    obtain ⟨-, hlen⟩ := writes_of_digitValues? hds
    rw [hds]
    dsimp only
    rw [hlen, hl.length, if_pos hlong]

theorem readMagnitude_eq_error {s : List Char} {f : Fault} :
    readMagnitude s = .error f ↔ readDecimal s = .error f := by
  unfold readMagnitude
  split
  · rw [readDecimal_of_head (by decide)]
    simp
  · rw [readDecimal_of_head (by decide)]
    simp
  · rfl

theorem read_eq_error {s : List Char} {f : Fault} :
    Numeral.read s = .error f ↔
      readDecimal s = .error f ∨ ∃ t, s = '-' :: t ∧ readDecimal t = .error f := by
  unfold Numeral.read
  split
  · rename_i t
    simp only [return_eq_error, readMagnitude_eq_error,
      readDecimal_of_head (show digitValue? 10 '-' = none by decide), reduceCtorEq, false_or,
      List.cons.injEq, true_and, exists_eq_left']
  · rename_i hne
    rw [return_eq_error, readMagnitude_eq_error]
    constructor
    · exact .inl
    · rintro (h | ⟨t, rfl, -⟩)
      · exact h
      · exact absurd rfl (hne t)

end Numeral

/-! ## Literals -/

namespace Assembly.Literal

open Numeral

theorem decimal_eq_error {negate : Bool} {s : List Char} {f : Fault} :
    decimal negate s = .error f ↔ Numeral.read s = .error f := by
  have hmark (c : Char) (t : List Char) (hc : digitValue? 10 c = none) (hne : c ≠ '-') :
      Numeral.read (c :: t) ≠ .error f := by
    rw [Ne, read_eq_error, readDecimal_of_head hc]
    simp [hne]
  unfold decimal
  split
  · simp [hmark 'x' _ (by decide) (by decide)]
  · simp [hmark 'X' _ (by decide) (by decide)]
  · exact return_eq_error

/-- The token is a decimal literal of too many digits, behind its marker and two signs at most. -/
def Overlong (token : String) (count : Nat) : Prop :=
  ∃ signs ds : List Char, signs ∈ [[], ['-'], ['-', '-']] ∧ LongDigits ds count ∧
    token.toList = '#' :: (signs ++ ds)

/-- Exactly the overlong tokens cannot be read. -/
theorem value?_eq_error {token : String} {f : Fault} :
    value? token = .error f ↔ ∃ count, Overlong token count ∧ f = .numeralTooLong count := by
  suffices h : value? token = .error f ↔ ∃ signs ds : List Char,
      signs ∈ [[], ['-'], ['-', '-']] ∧ readDecimal ds = .error f ∧
        token.toList = '#' :: (signs ++ ds) by
    rw [h]
    simp only [readDecimal_eq_error, Overlong]
    constructor
    · rintro ⟨signs, ds, hs, ⟨count, hl, rfl⟩, ht⟩
      exact ⟨count, ⟨signs, ds, hs, hl, ht⟩, rfl⟩
    · rintro ⟨count, ⟨signs, ds, hs, hl, ht⟩, rfl⟩
      exact ⟨signs, ds, hs, ⟨count, hl, rfl⟩, ht⟩
  unfold value?
  generalize token.toList = s
  constructor
  · intro h
    unfold read at h
    split at h
    · rename_i t
      rcases read_eq_error.mp (decimal_eq_error.mp h) with hd | ⟨u, rfl, hd⟩
      · exact ⟨['-'], t, by simp, hd, rfl⟩
      · exact ⟨['-', '-'], u, by simp, hd, rfl⟩
    · rename_i t hne
      rcases read_eq_error.mp (decimal_eq_error.mp h) with hd | ⟨u, rfl, -⟩
      · exact ⟨[], t, by simp, hd, rfl⟩
      · exact absurd rfl (hne u)
    all_goals cases h
  · rintro ⟨signs, ds, hs, hd, rfl⟩
    have hsign : ∀ t, ds ≠ '-' :: t := by
      rintro t rfl
      rw [readDecimal_of_head (by decide)] at hd
      cases hd
    simp only [List.mem_cons, List.not_mem_nil, or_false] at hs
    rcases hs with rfl | rfl | rfl
    · rw [List.nil_append, read_decimal hsign, decimal_eq_error, read_eq_error]
      exact .inl hd
    · exact decimal_eq_error.mpr (read_eq_error.mpr (.inl hd))
    · exact decimal_eq_error.mpr (read_eq_error.mpr (.inr ⟨ds, rfl, hd⟩))

end Assembly.Literal

/-! ## Writing -/

theorem Numeral.decimal_eq_error {n : Int} {f : Fault} :
    Numeral.decimal n = .error f ↔ 10 ^ maxDigits ≤ n.natAbs ∧ f = .integerTooLong := by
  have hl := Nat.length_toDigits_le_iff (b := 10) (k := maxDigits) (n := n.natAbs) (by decide)
    (by decide)
  unfold Numeral.decimal
  dsimp only
  split
  · rename_i h
    rw [Except.error.injEq, eq_comm]
    have : 10 ^ maxDigits ≤ n.natAbs := by
      rw [← Nat.not_lt, ← hl, Nat.not_le]
      exact h
    simp [this]
  · rename_i h
    have : ¬10 ^ maxDigits ≤ n.natAbs := by
      rw [Nat.not_le, ← hl]
      exact Nat.not_lt.mp h
    simp [this]

/-! ## Operands -/

namespace Assembly

/-- The operand is a numeral that cannot be read, or a number that is shown but cannot be written in
decimal. -/
inductive OperandFault (operand : String) (shown : Int → Prop) : Fault → Prop where
  | read {count : Nat} (h : Literal.Overlong operand count) :
      OperandFault operand shown (.numeralTooLong count)
  | written {n : Int} (h : Literal.value? operand = .ok (some n)) (hs : shown n)
      (hl : 10 ^ maxDigits ≤ n.natAbs) : OperandFault operand shown .integerTooLong

theorem operandFault_iff {operand : String} {shown : Int → Prop} {f : Fault} :
    OperandFault operand shown f ↔ Literal.value? operand = .error f ∨
      ∃ n, Literal.value? operand = .ok (some n) ∧ shown n ∧ 10 ^ maxDigits ≤ n.natAbs ∧
        f = .integerTooLong := by
  constructor
  · rintro (⟨h⟩ | ⟨h, hs, hl⟩)
    · exact .inl (Literal.value?_eq_error.mpr ⟨_, h, rfl⟩)
    · exact .inr ⟨_, h, hs, hl, rfl⟩
  · rintro (h | ⟨n, h, hs, hl, rfl⟩)
    · obtain ⟨count, hl, rfl⟩ := Literal.value?_eq_error.mp h
      exact .read hl
    · exact .written h hs hl

theorem not_operandFault {operand : String} (h : Literal.Readable operand) (shown : Int → Prop)
    (f : Fault) : ¬OperandFault operand shown f := by
  obtain ⟨v, hv, hw⟩ := h
  rw [operandFault_iff, hv]
  rintro (h | ⟨n, h, -, hl, -⟩)
  · cases h
  · cases h
    exact Nat.not_lt.mpr hl (hw n rfl)

end Assembly

end LC3
