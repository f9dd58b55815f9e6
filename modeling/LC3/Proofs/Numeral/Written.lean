import LC3.Proofs.Assembly.Literal
import LC3.Proofs.Assembly.Spelling

/-!
# Numbers are read as they are written

`Written` lists the texts of numbers: decimal digits, or hexadecimal digits behind a marker, with a
minus sign in front or without one. A number is read from just these texts, unless there are too
many decimal digits (`read_eq_some_iff_written`). What is printed, in either base, is read back, on
its own and as a literal (`printed_read_back`).
-/

namespace LC3.Numeral

/-! ## Texts of numbers -/

/-- The texts of numbers without a sign. -/
inductive Unsigned : List Char → Nat → Prop where
  | decimal {s : List Char} {n : Nat} (h : Digits 10 s n) : Unsigned s n
  | hexadecimal {x : Char} {s : List Char} {n : Nat} (hx : IsMarker x) (h : Digits 16 s n) :
      Unsigned (x :: s) n

/-- The texts of numbers. -/
inductive Written : List Char → Int → Prop where
  | positive {s : List Char} {n : Nat} (h : Unsigned s n) : Written s n
  | negative {s : List Char} {n : Nat} (h : Unsigned s n) : Written ('-' :: s) (-n)

theorem isDigit_of_place {c : Char} (h : place c < 10) : c.isDigit = true := by
  by_cases hc : c.toNat < 128
  · exact Assembly.forall_ascii (P := fun c => place c < 10 → c.isDigit = true)
      (by decide +kernel) hc h
  · rw [place_of_le (Nat.not_lt.mp hc)] at h
    omega

section

variable {s : List Char} {n : Nat}

theorem Digits.countP_isDigit (h : Digits 10 s n) : s.countP Char.isDigit = s.length :=
  List.countP_eq_length.mpr fun c hc => isDigit_of_place (h.digit c hc)

theorem LongDigits.countP_isDigit {count : Nat} (h : LongDigits s count) :
    s.countP Char.isDigit = count := by
  rw [← h.length, List.countP_eq_length]
  intro c hc
  have hd := h.digits c hc
  rw [digitValue?_eq (by decide)] at hd
  refine isDigit_of_place ?_
  by_contra hplace
  rw [if_neg hplace] at hd
  cases hd

theorem Magnitude.unsigned (h : Magnitude s n) : Unsigned s n := by
  cases h with
  | decimal h => exact .decimal h
  | hexadecimal hx h => exact .hexadecimal hx h

theorem Unsigned.magnitude (h : Unsigned s n) (hs : s.countP Char.isDigit ≤ maxDigits) :
    Magnitude s n := by
  cases h with
  | decimal h => exact .decimal h (h.countP_isDigit ▸ hs)
  | hexadecimal hx h => exact .hexadecimal hx h

end

/-! ## Reading -/

section

variable {s : List Char}

theorem readDecimal_ne_error (hs : s.countP Char.isDigit ≤ maxDigits) (f : Fault) :
    readDecimal s ≠ .error f := by
  intro h
  obtain ⟨count, hl, -⟩ := readDecimal_eq_error.mp h
  have hlong := hl.long
  rw [← hl.countP_isDigit] at hlong
  omega

theorem exists_read (hs : s.countP Char.isDigit ≤ maxDigits) : ∃ v, read s = .ok v := by
  cases h : read s with
  | ok v => exact ⟨v, rfl⟩
  | error f =>
    rcases read_eq_error.mp h with hd | ⟨t, rfl, hd⟩
    · exact absurd hd (readDecimal_ne_error hs f)
    · have ht : t.countP Char.isDigit ≤ maxDigits := by simpa using hs
      exact absurd hd (readDecimal_ne_error ht f)

theorem read_eq_some_iff_written (hs : s.countP Char.isDigit ≤ maxDigits) {n : Int} :
    read s = .ok (some n) ↔ Written s n := by
  rw [read_eq_some]
  constructor
  · rintro (⟨m, hm, rfl⟩ | ⟨t, m, rfl, hm, rfl⟩)
    · exact .positive hm.unsigned
    · exact .negative hm.unsigned
  · intro h
    cases h with
    | positive h => exact .inl ⟨_, h.magnitude hs, rfl⟩
    | negative h => exact .inr ⟨_, _, rfl, h.magnitude hs, rfl⟩

end

/-- Hexadecimal numerals are read back as numbers and as literals, however many zeros fill them up,
and so are decimal ones that are not too long to be written. Unless a text has too many decimal
digits, it is read as a number exactly if it writes that number, and as none if it writes none. -/
theorem printed_read_back :
    (∀ width n : Nat, Numeral.read (marked "x" width n).toList = .ok (some (n : Int)) ∧
      Assembly.Literal.value? (marked "x" width n) = .ok (some (n : Int))) ∧
    (∀ n : Int, n.natAbs < 10 ^ maxDigits → Numeral.decimal n = .ok (toString n) ∧
      Numeral.read (toString n).toList = .ok (some n) ∧
      Assembly.Literal.value? ("#" ++ toString n) = .ok (some n)) ∧
    ∀ text : String, text.toList.countP Char.isDigit ≤ maxDigits →
      (∃ v, Numeral.read text.toList = .ok v) ∧
        ∀ n, Numeral.read text.toList = .ok (some n) ↔ Written text.toList n := by
  refine ⟨fun width n => ?_, fun n hn => ?_, fun text ht => ?_⟩
  · exact ⟨read_marked width n, Assembly.Literal.value?_marked width n⟩
  · exact ⟨decimal_eq_toString hn, read_toString hn, Assembly.Literal.value?_decimal hn⟩
  · exact ⟨exists_read ht, fun n => read_eq_some_iff_written ht⟩

theorem printed_read_back_negative :
    (Numeral.decimal (-12) = .ok (toString (-12 : Int)) ∧
      Numeral.read (toString (-12 : Int)).toList = .ok (some (-12)) ∧
      Assembly.Literal.value? ("#" ++ toString (-12 : Int)) = .ok (some (-12))) ∧
    Written "-x1F".toList (-31) := by
  obtain ⟨-, hdecimal, htext⟩ := printed_read_back
  have hlt : (-12 : Int).natAbs < 10 ^ maxDigits := lt_maxDigits (by decide)
  exact ⟨hdecimal (-12) hlt, ((htext "-x1F" (by decide)).2 (-31)).mp rfl⟩

end LC3.Numeral
