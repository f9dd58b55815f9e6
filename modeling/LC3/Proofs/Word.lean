import LC3.Assembly.Diagnostic
import LC3.Condition
import LC3.Proofs.Instruction.Format
import Mathlib.Data.Int.ModEq

/-!
# Signed fields

The encoder cuts an integer to the low bits of a word, and the decoder reads such a field back with
its sign. `ShownIn bits n r` says which number a field of `bits` bits shows of `n`: the one in its
range that is congruent to `n`. Sign extension gives that number (`signedField_eq_iff`), and it is
the decoder's field of the word (`signedField_eq_field`). A word read as a signed number is a field
of sixteen bits, and so the laws of words and fields are laws of residues (`fields_are_residues`).
-/

namespace LC3

theorem Condition.sign_ofWord (w : Word) : (ofWord w).sign = w.toInt.sign := by
  unfold ofWord
  split
  · rename_i hneg
    rw [sign, Int.sign_eq_neg_one_of_neg hneg]
  · split
    · rename_i hzero
      rw [hzero]
      rfl
    · rename_i hneg hzero
      have hne : w.toInt ≠ 0 := fun h => hzero (BitVec.eq_of_toInt_eq h)
      rw [sign, Int.sign_eq_one_of_pos (by omega)]

namespace Word

/-! ## What a field shows -/

/-- The integers that a signed field of `bits` bits holds. -/
def InField (bits : Nat) (r : Int) : Prop :=
  -2 ^ (bits - 1) ≤ r ∧ r < 2 ^ (bits - 1)

/-- A signed field of `bits` bits shows the number `r` of `n`. -/
structure ShownIn (bits : Nat) (n r : Int) : Prop where
  range : InField bits r
  congr : r ≡ n [ZMOD 2 ^ bits]

section

variable {bits : Nat}

theorem inField_iff {r : Int} :
    InField bits r ↔ Assembly.fieldMin bits ≤ r ∧ r ≤ Assembly.fieldMax bits := by
  rw [InField, Assembly.fieldMin, Assembly.fieldMax, Nat.one_shiftLeft]
  push_cast
  omega

theorem inField_toInt (v : BitVec bits) : InField bits v.toInt :=
  ⟨v.le_toInt, BitVec.toInt_lt⟩

theorem InField.mono {width : Nat} (h : bits ≤ width) {r : Int} (hr : InField bits r) :
    InField width r := by
  have hpow : (2 : Int) ^ (bits - 1) ≤ 2 ^ (width - 1) :=
    mod_cast Nat.pow_le_pow_right (show 0 < 2 by decide) (Nat.sub_le_sub_right h 1)
  exact ⟨Int.le_trans (Int.neg_le_neg hpow) hr.1, Int.lt_of_lt_of_le hr.2 hpow⟩

theorem bmod_eq_iff_shownIn (hb : 1 ≤ bits) {n r : Int} :
    n.bmod (2 ^ bits) = r ↔ ShownIn bits n r := by
  -- The bit of the sign is taken off, so that half of the modulus is a power of two as well.
  obtain ⟨k, rfl⟩ := Nat.exists_eq_add_of_le' hb
  have hcast : ((2 ^ (k + 1) : Nat) : Int) = 2 * 2 ^ k := by
    rw [pow_succ']
    push_cast
    rfl
  have hrange : -(2 * 2 ^ k / 2) ≤ r ∧ r < (2 * 2 ^ k + 1) / 2 ↔ InField (k + 1) r := by
    rw [InField, Nat.add_sub_cancel]
    omega
  have hcongr : 2 * 2 ^ k ∣ r - n ↔ r ≡ n [ZMOD 2 ^ (k + 1)] := by
    rw [Int.modEq_comm, Int.modEq_iff_dvd, pow_succ']
  rw [Int.bmod_eq_iff (Nat.two_pow_pos _), hcast, hcongr, ← and_assoc, hrange]
  exact ⟨fun ⟨hr, hc⟩ => ⟨hr, hc⟩, fun ⟨hr, hc⟩ => ⟨hr, hc⟩⟩

/-! ## Sign extension -/

theorem signedField_eq_bmod (hb : bits ≤ 16) (n : Int) : signedField n bits = n.bmod (2 ^ bits) := by
  have hle : (2 ^ bits : Nat) ≤ 2 ^ 16 := Nat.pow_le_pow_right (by decide) hb
  have hmin := Int.le_bmod (x := n) (Nat.two_pow_pos bits)
  have hmax := Int.bmod_lt (x := n) (Nat.two_pow_pos bits)
  rw [signedField, Nat.one_shiftLeft, ofInt, BitVec.toInt_ofInt]
  exact Int.bmod_eq_of_le (by omega) (by omega)

/-- Beyond the width of a word, no bit of the field but those of the word is left. -/
theorem signedField_eq_toInt (hb : 16 ≤ bits) (n : Int) : signedField n bits = (ofInt n).toInt := by
  rw [signedField, Nat.one_shiftLeft, ofInt, ofInt, BitVec.toInt_ofInt, BitVec.toInt_ofInt,
    Int.bmod_bmod_of_dvd (pow_dvd_pow 2 hb)]

theorem signedField_eq_iff (h1 : 1 ≤ bits) (h16 : bits ≤ 16) {n r : Int} :
    signedField n bits = r ↔ ShownIn bits n r := by
  rw [signedField_eq_bmod h16, bmod_eq_iff_shownIn h1]

theorem signedField?_eq (h1 : 1 ≤ bits) (n : Int) :
    signedField? n bits = .ok (signedField n bits) := by
  rw [signedField?, if_neg (by omega), Int.toNat_natCast]

/-! ## Truncation -/

theorem toNat_ofInt_field (v : Int) : ((BitVec.ofInt bits v).toNat : Int) = v % 2 ^ bits := by
  have hpos : ((2 ^ bits : Nat) : Int) ≠ 0 := Int.natCast_ne_zero.mpr (Nat.two_pow_pos bits).ne'
  rw [BitVec.toNat_ofInt, Int.toNat_of_nonneg (Int.emod_nonneg v hpos)]
  push_cast
  rfl

theorem extractLsb'_ofInt (hb : bits ≤ 16) (v : Int) :
    (ofInt v).extractLsb' 0 bits = BitVec.ofInt bits v := by
  have hdvd : (2 : Int) ^ bits ∣ 0x10000 := pow_dvd_pow 2 hb
  rw [← BitVec.toNat_inj, ← Int.natCast_inj, toNat_field, Nat.pow_zero, Nat.div_one,
    toNat_ofInt_field, Int.natCast_mod, toNat_ofInt]
  push_cast
  exact Int.emod_emod_of_dvd v hdvd

theorem signedField_eq_field (hb : bits ≤ 16) (n : Int) :
    signedField n bits = ((ofInt n).extractLsb' 0 bits).toInt := by
  rw [signedField_eq_bmod hb, extractLsb'_ofInt hb, BitVec.toInt_ofInt]

theorem signedField_congr {m n : Int} (h : ofInt m = ofInt n) (bits : Nat) :
    signedField m bits = signedField n bits := by
  -- Up to sixteen bits, the field is cut from the word; beyond them, it is the word.
  rcases Nat.le_total bits 16 with hb | hb
  · rw [signedField_eq_field hb, signedField_eq_field hb, h]
  · rw [signedField_eq_toInt hb, signedField_eq_toInt hb, h]

theorem field_modEq (v k : Int) :
    v ≡ (BitVec.ofInt bits v).toNat + k * 2 ^ bits [ZMOD 2 ^ bits] := by
  rw [toNat_ofInt_field, Int.ModEq, Int.add_mul_emod_self_right, Int.emod_emod]

theorem signedField_field (h1 : 1 ≤ bits) (h16 : bits ≤ 16) {v : Int} (hv : InField bits v)
    (k : Int) : signedField ((BitVec.ofInt bits v).toNat + k * 2 ^ bits) bits = v :=
  (signedField_eq_iff h1 h16).mpr ⟨hv, field_modEq v k⟩

end

/-! ## Words -/

theorem toInt_ofInt_eq_iff {n r : Int} :
    (ofInt n).toInt = r ↔ -0x8000 ≤ r ∧ r ≤ 0x7FFF ∧ r ≡ n [ZMOD 0x10000] := by
  rw [← signedField_eq_toInt le_rfl, signedField_eq_iff (by decide) le_rfl]
  constructor
  · rintro ⟨⟨hmin, hmax⟩, hc⟩
    exact ⟨hmin, Int.le_of_lt_add_one hmax, hc⟩
  · rintro ⟨hmin, hmax, hc⟩
    exact ⟨⟨hmin, Int.lt_add_one_of_le hmax⟩, hc⟩

theorem toNat_ofInt_eq_iff {n r : Int} :
    ((ofInt n).toNat : Int) = r ↔ 0 ≤ r ∧ r ≤ 0xFFFF ∧ r ≡ n [ZMOD 0x10000] := by
  rw [toNat_ofInt, Int.ModEq]
  omega

/-- Words and signed fields are residues. Sign extension gives the number that a field shows, and it
undoes the encoder's truncation, whatever stands above the field. Read without a sign and with one,
the word of an integer is its residue in the one range and in the other, and either reading has the
same word again. The condition of an integer and all its signed fields depend on its word alone. -/
theorem fields_are_residues :
    (∀ (n : Int) (bits : Nat), 1 ≤ bits → bits ≤ 16 →
      (∃ r, signedField? n bits = .ok r) ∧
        ∀ r, signedField? n bits = .ok r ↔ ShownIn bits n r) ∧
    (∀ (v : Int) (bits : Nat), 1 ≤ bits → bits ≤ 16 →
      (InField bits v ↔ Assembly.fieldMin bits ≤ v ∧ v ≤ Assembly.fieldMax bits) ∧
      (ofInt v).extractLsb' 0 bits = BitVec.ofInt bits v ∧
      (InField bits v → ∀ k : Int,
        signedField? ((BitVec.ofInt bits v).toNat + k * 2 ^ bits) bits = .ok v)) ∧
    (∀ n : Int,
      (∀ r, ((ofInt n).toNat : Int) = r ↔ 0 ≤ r ∧ r ≤ 0xFFFF ∧ r ≡ n [ZMOD 0x10000]) ∧
      (∀ r, (ofInt n).toInt = r ↔ -0x8000 ≤ r ∧ r ≤ 0x7FFF ∧ r ≡ n [ZMOD 0x10000]) ∧
      (ofInt (ofInt n).toNat).toInt = (ofInt n).toInt ∧
      (ofInt (ofInt n).toInt).toNat = (ofInt n).toNat ∧
      (Condition.ofWord (ofInt n)).sign = (ofInt n).toInt.sign) ∧
    ∀ m n : Int, (ofInt m).toNat = (ofInt n).toNat →
      Condition.ofWord (ofInt m) = Condition.ofWord (ofInt n) ∧
        ∀ bits : Int, signedField? m bits = signedField? n bits := by
  refine ⟨fun n bits h1 h16 => ?_, fun v bits h1 h16 => ?_, fun n => ?_, fun m n h => ?_⟩
  · have hiff (r : Int) : signedField? n bits = .ok r ↔ ShownIn bits n r := by
      rw [signedField?_eq h1, Except.ok.injEq, signedField_eq_iff h1 h16]
    exact ⟨⟨_, signedField?_eq h1 n⟩, hiff⟩
  · refine ⟨inField_iff, extractLsb'_ofInt h16 v, fun hv k => ?_⟩
    rw [signedField?_eq h1, signedField_field h1 h16 hv]
  · refine ⟨fun r => toNat_ofInt_eq_iff, fun r => toInt_ofInt_eq_iff, ?_, ?_,
      Condition.sign_ofWord _⟩
    · rw [ofInt_toNat]
    · exact congrArg BitVec.toNat BitVec.ofInt_toInt
  · have hword : ofInt m = ofInt n := BitVec.eq_of_toNat_eq h
    refine ⟨by rw [hword], fun bits => ?_⟩
    rw [signedField?, signedField?, signedField_congr hword]

theorem fields_are_residues_extremes :
    ShownIn 5 0xFFF0 (-16) ∧
    signedField? ((BitVec.ofInt 9 (-256)).toNat + -3 * 2 ^ 9) 9 = .ok (-256) ∧
    signedField? (-0x18001) 11 = signedField? 0x7FFF 11 := by
  obtain ⟨hshown, hfield, -, hword⟩ := fields_are_residues
  refine ⟨((hshown 0xFFF0 5 (by decide) (by decide)).2 (-16)).mp rfl, ?_, ?_⟩
  · exact (hfield (-256) 9 (by decide) (by decide)).2.2 ⟨by decide, by decide⟩ (-3)
  · exact (hword (-0x18001) 0x7FFF (by decide)).2 11

end Word

end LC3
