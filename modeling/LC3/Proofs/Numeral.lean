import LC3.Numeral
import Mathlib.Tactic.IntervalCases

/-!
# Numerals are read back

`Writes base s n` says that `s` consists of digits and that `n` is the number they write. The digits
of a number write it (`writes_digits`), however many zeros stand in front of them, so that numbers
are read back from the texts they are printed as (`read_toString`, `read_marked`).
-/

namespace LC3.Numeral

/-! ## Digits -/

/-- The characters are digits of the base, and they write this number. -/
def Writes (base : Nat) (s : List Char) (n : Nat) : Prop :=
  ∃ ds, s.mapM (digitValue? base) = some ds ∧ valueOf base ds = n

theorem digitValue?_digitChar {base d : Nat} (hb : base ≤ 16) (hd : d < base) :
    digitValue? base d.digitChar.toUpper = some d := by
  have h16 : d < 16 := by omega
  have hv : digitValue? 16 d.digitChar.toUpper = some d := by
    interval_cases d <;> decide
  unfold digitValue? at hv ⊢
  obtain ⟨hs, -⟩ := Option.filter_eq_some_iff.mp hv
  exact Option.filter_eq_some_iff.mpr ⟨hs, by simpa using hd⟩

theorem isAlphanum_iff {c : Char} :
    c.isAlphanum = true ↔
      ((65 ≤ c.toNat ∧ c.toNat ≤ 90) ∨ (97 ≤ c.toNat ∧ c.toNat ≤ 122)) ∨
        (48 ≤ c.toNat ∧ c.toNat ≤ 57) := by
  change (decide (65 ≤ c.val ∧ c.val ≤ 90) || (decide (97 ≤ c.val) && decide (c.val ≤ 122)) ||
    (decide (48 ≤ c.val) && decide (c.val ≤ 57))) = true ↔ _
  simp only [Bool.or_eq_true, Bool.and_eq_true, decide_eq_true_eq, UInt32.le_iff_toNat_le]
  exact Iff.rfl

theorem isAlphanum_of_digitValue? {base d : Nat} {c : Char} (h : digitValue? base c = some d) :
    c.isAlphanum = true := by
  unfold digitValue? at h
  obtain ⟨hs, -⟩ := Option.filter_eq_some_iff.mp h
  simp only [Char.le_def, UInt32.le_iff_toNat_le] at hs
  rw [isAlphanum_iff]
  split at hs
  · rename_i hr
    exact .inr hr
  · split at hs
    · rename_i hr
      change 97 ≤ c.toNat ∧ c.toNat ≤ 102 at hr
      omega
    · split at hs
      · rename_i hr
        change 65 ≤ c.toNat ∧ c.toNat ≤ 70 at hr
        omega
      · cases hs

theorem valueOf_append (base : Nat) (ds : List Nat) (d : Nat) :
    valueOf base (ds ++ [d]) = base * valueOf base ds + d := by
  simp [valueOf]

theorem valueOf_zeros (base k : Nat) (ds : List Nat) :
    valueOf base (List.replicate k 0 ++ ds) = valueOf base ds := by
  induction k with
  | zero => rfl
  | succ k ih =>
    rw [List.replicate_succ, List.cons_append, ← ih]
    rfl

theorem Writes.append {base n d : Nat} {s : List Char} {c : Char} (h : Writes base s n)
    (hc : digitValue? base c = some d) : Writes base (s ++ [c]) (base * n + d) := by
  obtain ⟨ds, hs, rfl⟩ := h
  refine ⟨ds ++ [d], ?_, valueOf_append base ds d⟩
  simp [List.mapM_append, hs, hc]

theorem Writes.zeros {base n : Nat} {s : List Char} (h : Writes base s n) (hb : 0 < base)
    (k : Nat) : Writes base (List.replicate k '0' ++ s) n := by
  obtain ⟨ds, hs, rfl⟩ := h
  have h0 : digitValue? base '0' = some 0 := by simp [digitValue?, hb]
  have hz : (List.replicate k '0').mapM (digitValue? base) = some (List.replicate k 0) := by
    induction k with
    | zero => rfl
    | succ k ih => simp [List.replicate_succ, h0, ih]
  refine ⟨List.replicate k 0 ++ ds, ?_, valueOf_zeros base k ds⟩
  simp [List.mapM_append, hz, hs]

theorem Writes.exists_digit {base n : Nat} {s : List Char} (h : Writes base s n) {c : Char}
    (hc : c ∈ s) : ∃ d, digitValue? base c = some d := by
  obtain ⟨ds, hs, -⟩ := h
  clear n
  induction s generalizing ds with
  | nil => cases hc
  | cons c' s ih =>
    simp only [List.mapM_cons, Option.bind_eq_bind, Option.bind_eq_some_iff] at hs
    obtain ⟨d, hd, ds', hs', -⟩ := hs
    rcases List.mem_cons.mp hc with rfl | hc
    · exact ⟨d, hd⟩
    · exact ih hc ds' hs'

theorem Writes.isAlphanum {base n : Nat} {s : List Char} (h : Writes base s n) {c : Char}
    (hc : c ∈ s) : c.isAlphanum = true := by
  obtain ⟨d, hd⟩ := h.exists_digit hc
  exact isAlphanum_of_digitValue? hd

/-- Digits begin neither with a sign nor with a marker. -/
theorem Writes.cons {base n : Nat} {s : List Char} (h : Writes base s n) (hne : s ≠ []) :
    ∃ c t, s = c :: t ∧ c ≠ '-' ∧ c ≠ 'x' ∧ c ≠ 'X' := by
  obtain ⟨c, t, rfl⟩ := List.exists_cons_of_ne_nil hne
  obtain ⟨d, hd⟩ := h.exists_digit (c := c) (by simp)
  refine ⟨c, t, rfl, ?_, ?_, ?_⟩ <;> rintro rfl <;> simp [digitValue?] at hd

/-! ## Numerals -/

theorem writes_digits (base : Nat) (h1 : 1 < base) (h16 : base ≤ 16) (n : Nat) :
    Writes base (digits base n) n := by
  induction n using Nat.strongRecOn with
  | _ n ih =>
    unfold digits
    rw [Nat.toDigits_eq_if h1]
    split
    · rename_i hn
      refine ⟨[n], ?_, by simp [valueOf]⟩
      simp [digitValue?_digitChar h16 hn]
    · rename_i hn
      have hlt : n / base < n := Nat.div_lt_self (by omega) h1
      have hmod : n % base < base := Nat.mod_lt n (by omega)
      have h := (ih (n / base) hlt).append (digitValue?_digitChar h16 hmod)
      rw [Nat.div_add_mod] at h
      rw [List.map_append]
      exact h

theorem digits_ne_nil (base n : Nat) : digits base n ≠ [] := by
  simp [digits]

/-- Decimal digits have no case. -/
theorem digits_ten (n : Nat) : digits 10 n = Nat.toDigits 10 n := by
  refine (List.map_congr_left fun c hc => ?_).trans (List.map_id _)
  have hd := Nat.isDigit_of_mem_toDigits (by decide) (by decide) hc
  simp only [Char.isDigit, Bool.and_eq_true, decide_eq_true_eq, ge_iff_le,
    UInt32.le_iff_toNat_le] at hd
  change 48 ≤ c.toNat ∧ c.toNat ≤ 57 at hd
  unfold Char.toUpper
  rw [dif_neg]
  · rfl
  · rintro ⟨h, -⟩
    have h : 97 ≤ c.toNat := UInt32.le_iff_toNat_le.mp h
    omega

theorem Writes.length {base n : Nat} {s : List Char} (h : Writes base s n) :
    ∃ ds, s.mapM (digitValue? base) = some ds ∧ valueOf base ds = n ∧ ds.length = s.length := by
  obtain ⟨ds, hs, hv⟩ := h
  refine ⟨ds, hs, hv, ?_⟩
  clear hv n
  induction s generalizing ds with
  | nil =>
    cases hs
    rfl
  | cons c s ih =>
    simp only [List.mapM_cons, Option.bind_eq_bind, Option.bind_eq_some_iff] at hs
    obtain ⟨d, -, ds', hs', hd⟩ := hs
    cases hd
    rw [List.length_cons, List.length_cons, ih ds' hs']

theorem writes_leftpad (width n : Nat) : Writes 16 (List.leftpad width '0' (digits 16 n)) n :=
  (writes_digits 16 (by decide) (by decide) n).zeros (by decide) _

theorem leftpad_ne_nil (width n : Nat) : List.leftpad width '0' (digits 16 n) ≠ [] := by
  have := digits_ne_nil 16 n
  simp [List.leftpad, this]

theorem hex_eq (n : Nat) : hex n = String.ofList (List.leftpad 4 '0' (digits 16 n)) := by
  have h : ¬ (n : Int) < 0 := by omega
  rw [hex, padded, if_neg h, Int.natAbs_natCast]

theorem marked_eq (width n : Nat) :
    marked "x" width n = "x" ++ String.ofList (List.leftpad width '0' (digits 16 n)) := by
  have h : ¬ (n : Int) < 0 := by omega
  rw [marked, if_neg h, Int.natAbs_natCast]

theorem marked_four (n : Nat) : marked "x" 4 n = "x" ++ hex n := by
  rw [marked_eq, hex_eq]

theorem toList_toString (n : Int) :
    (toString n).toList =
      if n < 0 then '-' :: Nat.toDigits 10 n.natAbs else Nat.toDigits 10 n.natAbs := by
  rw [Int.toString_eq_repr, Int.repr_eq_if]
  by_cases h : n < 0
  · rw [if_neg (by omega), if_pos h, String.toList_append, Nat.toList_repr,
      show (-n).toNat = n.natAbs by omega]
    rfl
  · rw [if_pos (by omega), if_neg h, Nat.toList_repr, show n.toNat = n.natAbs by omega]

/-! ## Reading -/

theorem readHex?_of_writes {n : Nat} {s : List Char} (h : Writes 16 s n) (hne : s ≠ []) :
    readHex? s = some n := by
  obtain ⟨ds, hs, rfl⟩ := h
  simp [readHex?, digitValues?, hne, hs]

theorem readDecimal_of_writes {n : Nat} {s : List Char} (h : Writes 10 s n) (hne : s ≠ [])
    (hl : s.length ≤ maxDigits) : readDecimal s = .ok (some n) := by
  obtain ⟨ds, hs, rfl, hd⟩ := h.length
  have hv : digitValues? 10 s = some ds := by simp [digitValues?, hne, hs]
  unfold readDecimal
  rw [hv]
  exact if_neg (by omega)

theorem readMagnitude_of_writes {n : Nat} {s : List Char} (h : Writes 10 s n) (hne : s ≠ [])
    (hl : s.length ≤ maxDigits) : readMagnitude s = .ok (some n) := by
  have hread := readDecimal_of_writes h hne hl
  obtain ⟨c, t, rfl, -, hx, hX⟩ := h.cons hne
  unfold readMagnitude
  split
  · rename_i he
    exact absurd (List.cons.inj he).1 hx
  · rename_i he
    exact absurd (List.cons.inj he).1 hX
  · exact hread

theorem read_minus {n : Nat} {s : List Char} (h : readMagnitude s = .ok (some n)) :
    read ('-' :: s) = .ok (some (-(n : Int))) := by
  rw [read, h]
  rfl

theorem read_of_readMagnitude {n : Nat} {s : List Char} (h : readMagnitude s = .ok (some n))
    (hs : s.head? ≠ some '-') : read s = .ok (some (n : Int)) := by
  unfold read
  split
  · exact absurd rfl hs
  · rw [h]
    rfl

theorem read_of_writes {n : Nat} {s : List Char} (h : Writes 10 s n) (hne : s ≠ [])
    (hl : s.length ≤ maxDigits) : read s = .ok (some (n : Int)) := by
  refine read_of_readMagnitude (readMagnitude_of_writes h hne hl) ?_
  obtain ⟨c, t, rfl, hsign, -, -⟩ := h.cons hne
  simpa using hsign

theorem writes_toDigits {n : Nat} (h : n < 10 ^ maxDigits) :
    Writes 10 (Nat.toDigits 10 n) n ∧ Nat.toDigits 10 n ≠ [] ∧
      (Nat.toDigits 10 n).length ≤ maxDigits := by
  have hw := writes_digits 10 (by decide) (by decide) n
  rw [digits_ten] at hw
  exact ⟨hw, by simp, (Nat.length_toDigits_le_iff (by decide) (by decide)).mpr h⟩

theorem decimal_eq_toString {n : Int} (h : n.natAbs < 10 ^ maxDigits) :
    decimal n = .ok (toString n) := by
  obtain ⟨-, -, hl⟩ := writes_toDigits h
  rw [decimal, if_neg (Nat.not_lt.mpr hl), ← toList_toString, String.ofList_toList]

theorem read_toString {n : Int} (h : n.natAbs < 10 ^ maxDigits) :
    read (toString n).toList = .ok (some n) := by
  obtain ⟨hw, hne, hl⟩ := writes_toDigits h
  rw [toList_toString]
  split
  · rename_i hneg
    rw [read_minus (readMagnitude_of_writes hw hne hl), show -(n.natAbs : Int) = n by omega]
  · rename_i hnonneg
    rw [read_of_writes hw hne hl, show (n.natAbs : Int) = n by omega]

theorem read_marked (width n : Nat) : read (marked "x" width n).toList = .ok (some (n : Int)) := by
  rw [marked_eq, String.toList_append, String.toList_ofList, String.toList_ofList]
  refine read_of_readMagnitude (congrArg Except.ok ?_) (by simp)
  exact readHex?_of_writes (writes_leftpad width n) (leftpad_ne_nil width n)

theorem lt_maxDigits {n : Int} (h : n.natAbs < 100000) : n.natAbs < 10 ^ maxDigits := by
  have hpow : 10 ^ 5 ≤ 10 ^ maxDigits := Nat.pow_le_pow_right (by decide) (by decide)
  exact Nat.lt_of_lt_of_le h hpow

end LC3.Numeral
