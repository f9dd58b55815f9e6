import LC3.Outcome
import LC3.Proofs.Numeral

/-!
# Line numbers are read back

A message that begins with a line and its number is raised with that number: the digits of a number
are decimal digits, and they end at the colon behind them. Only a number of more than `maxDigits`
digits cannot be read back.
-/

namespace LC3

open Numeral

/-- An ASCII digit has the same value among the digits of all scripts. -/
theorem Text.decimalValue?_of_digitValue? {c : Char} {d : Nat} (h : digitValue? 10 c = some d) :
    Text.decimalValue? c = some d := by
  unfold digitValue? at h
  obtain ⟨hs, hd⟩ := Option.filter_eq_some_iff.mp h
  have hd : d < 10 := of_decide_eq_true hd
  split at hs
  · rename_i hr
    have hlow : 0x30 ≤ c.toNat := hr.1
    have hhigh : c.toNat ≤ 0x39 := hr.2
    rw [← Option.some.inj hs]
    unfold Text.decimalValue? Text.decimalZeros
    rw [List.find?_cons_of_pos (by simp [hlow, hhigh])]
    rfl
  · -- Letters have values from ten on.
    split at hs
    · cases hs
      omega
    · split at hs
      · cases hs
        omega
      · cases hs

namespace Outcome

theorem mapM_decimalValue? {s : List Char} {ds : List Nat}
    (h : s.mapM (digitValue? 10) = some ds) : s.mapM Text.decimalValue? = some ds := by
  induction s generalizing ds with
  | nil => exact h
  | cons c s ih =>
    simp only [List.mapM_cons, Option.bind_eq_bind, Option.bind_eq_some_iff] at h ⊢
    obtain ⟨d, hd, ds', hds, h⟩ := h
    exact ⟨d, Text.decimalValue?_of_digitValue? hd, ds', ih hds, h⟩

theorem numberOfDigits_of_writes {s : List Char} {n : Nat} (h : Writes 10 s n)
    (hl : s.length ≤ maxDigits) : numberOfDigits s = .ok n := by
  obtain ⟨ds, hs, rfl⟩ := h
  have hcount := (s.takeWhile_prefix Text.isDecimalDigit).length_le
  unfold numberOfDigits
  dsimp only
  rw [if_neg (by omega), mapM_decimalValue? hs]

/-- The number stands between the beginning of the message and its first colon. -/
theorem lineNumber_of_writes {message : String} {digits rest : List Char} {n : Nat}
    (hm : message.toList = 'L' :: 'i' :: 'n' :: 'e' :: ' ' :: (digits ++ ':' :: rest))
    (h : Writes 10 digits n) (hne : digits ≠ []) (hl : digits.length ≤ maxDigits) :
    lineNumber message = .ok (some n) := by
  have hdigit {c : Char} (hc : c ∈ digits) : ∃ d, Text.decimalValue? c = some d := by
    obtain ⟨d, hd⟩ := h.exists_digit hc
    exact ⟨d, Text.decimalValue?_of_digitValue? hd⟩
  have htake : (digits ++ ':' :: rest).takeWhile (· ≠ ':') = digits := by
    rw [List.takeWhile_append_of_pos, List.takeWhile_cons_of_neg (by decide), List.append_nil]
    intro c hc
    have halnum := h.isAlphanum hc
    refine decide_eq_true ?_
    rintro rfl
    cases halnum
  have hall : digits.all Text.isDigit = true := by
    refine List.all_eq_true.mpr fun c hc => ?_
    obtain ⟨d, hd⟩ := hdigit hc
    rw [Text.isDigit, Text.isDecimalDigit, hd]
    rfl
  have hdigits : (!digits.isEmpty && digits.all Text.isDigit) = true := by
    rw [hall, Bool.and_true]
    simpa using hne
  unfold lineNumber
  rw [hm, lineText?, htake]
  dsimp only
  rw [if_pos hdigits, numberOfDigits_of_writes h hl]
  rfl

theorem lineNumber_line {line : Nat} (hl : line < 10 ^ maxDigits) (rest : String) :
    lineNumber (s!"Line {line}: " ++ rest) = .ok (some line) := by
  obtain ⟨hwrites, hne, hlength⟩ := writes_toDigits hl
  have hmessage : (s!"Line {line}: " ++ rest).toList =
      'L' :: 'i' :: 'n' :: 'e' :: ' ' :: (Nat.toDigits 10 line ++ ':' :: ' ' :: rest.toList) := by
    simp only [String.toList_append, Nat.toString_eq_repr, Nat.toList_repr, List.append_assoc]
    rfl
  exact lineNumber_of_writes hmessage hwrites hne hlength

theorem unwrap_line {line : Nat} (hl : line < 10 ^ maxDigits) (rest : String) :
    (failure (s!"Line {line}: " ++ rest)).unwrap =
      .error (.diagnostic (s!"Line {line}: " ++ rest) (some line)) := by
  rw [unwrap, lineNumber_line hl]
  rfl

end Outcome

end LC3
