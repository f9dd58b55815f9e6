import LC3.Assembly.Literal
import LC3.Proofs.Numeral

/-!
# Literals are read back

The literals that programs are printed with: decimal behind `#`, and hexadecimal behind `x` with any
number of zeros in front.
-/

namespace LC3.Assembly.Literal

open Numeral

theorem value?_hexadecimal {n : Nat} {s : List Char} (h : Writes 16 s n) (hne : s ≠ []) :
    value? ("x" ++ String.ofList s) = .ok (some (n : Int)) := by
  obtain ⟨c, t, rfl, hc, -, -⟩ := h.cons hne
  have hread : afterMarker (c :: t) = hexadecimal false (c :: t) := by
    unfold afterMarker
    split
    · rename_i he
      exact absurd (List.cons.inj he).1 hc
    · rfl
  have hneg : ¬ (n : Int) < 0 := by omega
  have hx : ("x" ++ String.ofList (c :: t)).toList = 'x' :: c :: t := by
    rw [String.toList_append, String.toList_ofList, String.toList_ofList]
    rfl
  rw [value?, hx, read, hread, hexadecimal, readHex?_of_writes h hne]
  simp [signed, hneg]

theorem value?_marked (width n : Nat) : value? (marked "x" width n) = .ok (some (n : Int)) := by
  rw [marked_eq]
  exact value?_hexadecimal (writes_leftpad width n) (leftpad_ne_nil width n)

theorem decimal_digits {n : Nat} {s : List Char} (negate : Bool) (h : Writes 10 s n) (hne : s ≠ [])
    (hl : s.length ≤ maxDigits) :
    decimal negate s = .ok (some (if negate then -(n : Int) else n)) := by
  have hread := read_of_writes h hne hl
  obtain ⟨c, t, rfl, -, hx, hX⟩ := h.cons hne
  have hneg : ¬ (n : Int) < 0 := by omega
  unfold decimal
  split
  · rename_i he
    exact absurd (List.cons.inj he).1 hx
  · rename_i he
    exact absurd (List.cons.inj he).1 hX
  · rw [hread]
    simp [bind, Except.bind, signed, hneg, pure, Except.pure]

/-- A minus sign behind the marker is read first. -/
theorem read_decimal {s : List Char} (h : ∀ t, s ≠ '-' :: t) : read ('#' :: s) = decimal false s := by
  unfold read
  split <;> simp_all

theorem value?_decimal {n : Int} (h : n.natAbs < 10 ^ maxDigits) :
    value? ("#" ++ toString n) = .ok (some n) := by
  obtain ⟨hw, hne, hl⟩ := writes_toDigits h
  have hread : read ('#' :: Nat.toDigits 10 n.natAbs) =
      decimal false (Nat.toDigits 10 n.natAbs) := by
    obtain ⟨c, t, hct, hc, -, -⟩ := hw.cons hne
    refine read_decimal fun u hu => hc ?_
    rw [hct] at hu
    exact (List.cons.inj hu).1
  rw [value?, String.toList_append, toList_toString]
  split
  · rename_i hneg
    refine (decimal_digits true hw hne hl).trans ?_
    rw [if_pos rfl, show -(n.natAbs : Int) = n by omega]
  · rename_i hnonneg
    refine hread.trans ((decimal_digits false hw hne hl).trans ?_)
    rw [if_neg (by decide), show (n.natAbs : Int) = n by omega]

end LC3.Assembly.Literal
