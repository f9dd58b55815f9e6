import LC3.Instruction.Decode
import Mathlib.Algebra.Group.Nat.Defs

/-!
# Instruction formats

`Instruction.number` gives each instruction's word as a number, field by field. From it follow the
two laws of the formats: `decode_encode` reads every encoded instruction back, and `encode_decode`
writes every well-formed word back.
-/

namespace LC3

/-! ## Fields of a word as numbers -/

theorem toNat_append_eq {m n : Nat} (x : BitVec m) (y : BitVec n) :
    (x ++ y).toNat = x.toNat * 2 ^ n + y.toNat := by
  rw [BitVec.toNat_append, ← Nat.shiftLeft_add_eq_or_of_lt y.isLt, Nat.shiftLeft_eq]

namespace Word

theorem ofInt_toNat (w : Word) : ofInt w.toNat = w := by
  rw [ofInt, BitVec.ofInt_natCast, BitVec.ofNat_toNat, BitVec.setWidth_eq]

theorem toNat_ofInt (n : Int) : ((ofInt n).toNat : Int) = n % 0x10000 := by
  rw [ofInt, BitVec.toNat_ofInt]
  omega

theorem toNat_ofInt_of_range {n : Int} (h0 : 0 ≤ n) (h : n ≤ 0xFFFF) :
    ((ofInt n).toNat : Int) = n := by
  rw [toNat_ofInt]
  omega

theorem ofInt_eq_iff {n : Int} {w : Word} : ofInt n = w ↔ n % 0x10000 = w.toNat := by
  rw [← BitVec.toNat_inj, ← toNat_ofInt]
  omega

theorem toNat_field (w : Word) (low count : Nat) :
    (w.extractLsb' low count).toNat = w.toNat / 2 ^ low % 2 ^ count := by
  rw [BitVec.extractLsb'_toNat, Nat.shiftRight_eq_div_pow]

theorem bit_eq {n : Nat} (w : BitVec n) (i : Nat) :
    w.getLsbD i = decide (w.toNat / 2 ^ i % 2 = 1) := by
  rw [BitVec.getLsbD, Nat.testBit_eq_decide_div_mod_eq]

theorem toNat_bit {n : Nat} (w : BitVec n) (i : Nat) :
    (w.getLsbD i).toNat = w.toNat / 2 ^ i % 2 := by
  rw [bit_eq]
  rcases Nat.mod_two_eq_zero_or_one (w.toNat / 2 ^ i) with h | h <;> rw [h] <;> rfl

theorem bit_eq_of_toNat {w : Word} {i : Nat} {b : Bool} (h : w.toNat / 2 ^ i % 2 = b.toNat) :
    w.getLsbD i = b := by
  rw [bit_eq, h]
  cases b <;> rfl

theorem field_eq {w : Word} {low count : Nat} {v : BitVec count}
    (h : w.toNat / 2 ^ low % 2 ^ count = v.toNat) : w.extractLsb' low count = v :=
  BitVec.eq_of_toNat_eq (by rw [toNat_field, h])

theorem toNat_of_field {w : Word} {low count : Nat} {v : BitVec count}
    (h : w.extractLsb' low count = v) : w.toNat / 2 ^ low % 2 ^ count = v.toNat := by
  rw [← toNat_field, h]

theorem register_eq {w : Word} {low : Nat} {r : Reg} (h : w.toNat / 2 ^ low % 8 = r.toNat) :
    w.register low = r :=
  field_eq h

theorem source_register {w : Word} {r : Reg} (h5 : w.toNat / 32 % 2 = 0)
    (h : w.toNat % 8 = r.toNat) : w.source = .register r := by
  unfold source
  rw [bit_eq, if_neg (by simp [h5]), register_eq (by simpa using h)]

theorem source_immediate {w : Word} {v : BitVec 5} (h5 : w.toNat / 32 % 2 = 1)
    (h : w.toNat % 32 = v.toNat) : w.source = .immediate v := by
  unfold source
  rw [bit_eq, if_pos (by simp [h5]), field_eq (by simpa using h)]

/-- The two kinds of a last operand, with bit 5 and the field that follows it. -/
theorem source_cases (w : Word) :
    (∃ r, w.source = .register r ∧ w.toNat / 32 % 2 = 0 ∧ r.toNat = w.toNat % 8) ∨
      ∃ v, w.source = .immediate v ∧ w.toNat / 32 % 2 = 1 ∧ v.toNat = w.toNat % 32 := by
  unfold source
  split <;> rename_i h <;> rw [bit_eq, decide_eq_true_eq] at h
  · exact .inr ⟨_, rfl, h, by rw [toNat_field]; omega⟩
  · exact .inl ⟨_, rfl, by omega, by rw [register, toNat_field]; omega⟩

end Word

/-! ## Encoded instructions -/

/-- The number that an instruction is encoded as. -/
def Instruction.number : Instruction → Nat
  | br n z p offset => n.toNat * 2048 + z.toNat * 1024 + p.toNat * 512 + offset.toNat
  | add dr sr (.register r) => 0x1000 + dr.toNat * 512 + sr.toNat * 64 + r.toNat
  | add dr sr (.immediate v) => 0x1020 + dr.toNat * 512 + sr.toNat * 64 + v.toNat
  | ld dr offset => 0x2000 + dr.toNat * 512 + offset.toNat
  | st sr offset => 0x3000 + sr.toNat * 512 + offset.toNat
  | jsr offset => 0x4800 + offset.toNat
  | jsrr base => 0x4000 + base.toNat * 64
  | and dr sr (.register r) => 0x5000 + dr.toNat * 512 + sr.toNat * 64 + r.toNat
  | and dr sr (.immediate v) => 0x5020 + dr.toNat * 512 + sr.toNat * 64 + v.toNat
  | ldr dr base offset => 0x6000 + dr.toNat * 512 + base.toNat * 64 + offset.toNat
  | str sr base offset => 0x7000 + sr.toNat * 512 + base.toNat * 64 + offset.toNat
  | rti => 0x8000
  | not dr sr => 0x903F + dr.toNat * 512 + sr.toNat * 64
  | ldi dr offset => 0xA000 + dr.toNat * 512 + offset.toNat
  | sti sr offset => 0xB000 + sr.toNat * 512 + offset.toNat
  | jmp base => 0xC000 + base.toNat * 64
  | reserved => 0xD000
  | lea dr offset => 0xE000 + dr.toNat * 512 + offset.toNat
  | trap vector => 0xF000 + vector.toNat

theorem Instruction.toNat_encode (i : Instruction) : i.encode.toNat = i.number := by
  unfold encode number
  split <;> try rfl
  all_goals
    repeat rw [toNat_append_eq]
    simp only [BitVec.toNat_ofNat, BitVec.toNat_ofBool]
    omega

theorem opcode_eq {w : Word} {k : Nat} (hk : w.toNat / 4096 % 16 = k) :
    (w.extractLsb' 12 4).toNat = k := by
  rw [Word.toNat_field]
  exact hk

theorem decode_encode (i : Instruction) : decode i.encode = i := by
  -- From here on only the number counts: every field is a quotient and a remainder of it.
  have h := i.toNat_encode
  generalize i.encode = w at h
  unfold decode
  unfold Instruction.number at h
  cases i with try simp only at h
  | add dr sr s =>
    cases s with
    | register r =>
      simp only at h
      rw [opcode_eq (k := 1) (by omega)]
      exact congr (congr (congrArg Instruction.add (Word.register_eq (by omega)))
        (Word.register_eq (by omega))) (Word.source_register (by omega) (by omega))
    | immediate v =>
      simp only at h
      rw [opcode_eq (k := 1) (by omega)]
      exact congr (congr (congrArg Instruction.add (Word.register_eq (by omega)))
        (Word.register_eq (by omega))) (Word.source_immediate (by omega) (by omega))
  | and dr sr s =>
    cases s with
    | register r =>
      simp only at h
      rw [opcode_eq (k := 5) (by omega)]
      exact congr (congr (congrArg Instruction.and (Word.register_eq (by omega)))
        (Word.register_eq (by omega))) (Word.source_register (by omega) (by omega))
    | immediate v =>
      simp only at h
      rw [opcode_eq (k := 5) (by omega)]
      exact congr (congr (congrArg Instruction.and (Word.register_eq (by omega)))
        (Word.register_eq (by omega))) (Word.source_immediate (by omega) (by omega))
  | not dr sr =>
    rw [opcode_eq (k := 9) (by omega)]
    exact congr (congrArg Instruction.not (Word.register_eq (by omega)))
      (Word.register_eq (by omega))
  | br n z p offset =>
    have hn := n.toNat_lt; have hz := z.toNat_lt; have hp := p.toNat_lt
    rw [opcode_eq (k := 0) (by omega)]
    exact congr (congr (congr (congrArg Instruction.br (Word.bit_eq_of_toNat (by omega)))
      (Word.bit_eq_of_toNat (by omega))) (Word.bit_eq_of_toNat (by omega)))
      (Word.field_eq (by omega))
  | jmp base =>
    rw [opcode_eq (k := 12) (by omega)]
    exact congrArg Instruction.jmp (Word.register_eq (by omega))
  | jsr offset =>
    rw [opcode_eq (k := 4) (by omega)]
    rw [Word.bit_eq_of_toNat (b := true) (by simp; omega)]
    exact congrArg Instruction.jsr (Word.field_eq (by omega))
  | jsrr base =>
    rw [opcode_eq (k := 4) (by omega)]
    rw [Word.bit_eq_of_toNat (b := false) (by simp; omega)]
    exact congrArg Instruction.jsrr (Word.register_eq (by omega))
  | ld dr offset =>
    rw [opcode_eq (k := 2) (by omega)]
    exact congr (congrArg Instruction.ld (Word.register_eq (by omega))) (Word.field_eq (by omega))
  | ldi dr offset =>
    rw [opcode_eq (k := 10) (by omega)]
    exact congr (congrArg Instruction.ldi (Word.register_eq (by omega))) (Word.field_eq (by omega))
  | ldr dr base offset =>
    rw [opcode_eq (k := 6) (by omega)]
    exact congr (congr (congrArg Instruction.ldr (Word.register_eq (by omega)))
      (Word.register_eq (by omega))) (Word.field_eq (by omega))
  | lea dr offset =>
    rw [opcode_eq (k := 14) (by omega)]
    exact congr (congrArg Instruction.lea (Word.register_eq (by omega))) (Word.field_eq (by omega))
  | st sr offset =>
    rw [opcode_eq (k := 3) (by omega)]
    exact congr (congrArg Instruction.st (Word.register_eq (by omega))) (Word.field_eq (by omega))
  | sti sr offset =>
    rw [opcode_eq (k := 11) (by omega)]
    exact congr (congrArg Instruction.sti (Word.register_eq (by omega))) (Word.field_eq (by omega))
  | str sr base offset =>
    rw [opcode_eq (k := 7) (by omega)]
    exact congr (congr (congrArg Instruction.str (Word.register_eq (by omega)))
      (Word.register_eq (by omega))) (Word.field_eq (by omega))
  | trap vector =>
    rw [opcode_eq (k := 15) (by omega)]
    exact congrArg Instruction.trap (Word.field_eq (by omega))
  | rti => rw [opcode_eq (k := 8) (by omega)]; rfl
  | reserved => rw [opcode_eq (k := 13) (by omega)]; rfl

/-- Encoding undoes decoding where the unused bits are as the architecture demands. -/
theorem encode_decode {w : Word} (hw : w.WellFormed) : (decode w).encode = w := by
  apply BitVec.eq_of_toNat_eq
  rw [Instruction.toNat_encode]
  have hop := Word.toNat_field w 12 4
  have hlt := w.isLt
  unfold Word.WellFormed at hw
  generalize hi : decode w = i at hw
  unfold decode at hi
  split at hi
  case h_2 | h_6 =>
    subst hi
    rcases w.source_cases with ⟨r, hr, h5, h⟩ | ⟨v, hv, h5, h⟩
    · rw [hr] at hw ⊢
      have h3 : w.toNat / 8 % 4 = 0 := Word.toNat_of_field hw
      simp only [Instruction.number, Word.register, Word.toNat_field, h]
      omega
    · simp only [hv, Instruction.number, Word.register, Word.toNat_field, h]
      omega
  case h_5 =>
    split at hi <;> rename_i h11 <;> rw [Word.bit_eq, decide_eq_true_eq] at h11 <;> subst hi
    · simp only [Instruction.number, Word.toNat_field]
      omega
    · have h9 : w.toNat / 512 % 4 = 0 := Word.toNat_of_field hw.1
      have h0 : w.toNat / 1 % 64 = 0 := Word.toNat_of_field hw.2
      simp only [Instruction.number, Word.register, Word.toNat_field]
      omega
  case h_9 =>
    subst hi
    have h0 : w.toNat / 1 % 4096 = 0 := Word.toNat_of_field hw
    simp only [Instruction.number]
    omega
  case h_10 =>
    subst hi
    have h0 : w.toNat / 1 % 64 = 63 := Word.toNat_of_field hw
    simp only [Instruction.number, Word.register, Word.toNat_field]
    omega
  case h_13 =>
    subst hi
    have h9 : w.toNat / 512 % 8 = 0 := Word.toNat_of_field hw.1
    have h0 : w.toNat / 1 % 64 = 0 := Word.toNat_of_field hw.2
    simp only [Instruction.number, Word.register, Word.toNat_field]
    omega
  case h_14 =>
    subst hi
    exact hw.elim
  case h_16 =>
    subst hi
    have h8 : w.toNat / 256 % 16 = 0 := Word.toNat_of_field hw
    simp only [imp_false] at *
    simp only [Instruction.number, Word.toNat_field]
    omega
  all_goals
    subst hi
    simp only [Instruction.number, Word.register, Word.toNat_field, Word.toNat_bit]
    omega

theorem wellFormed_encode {i : Instruction} (hi : i ≠ .reserved) : i.encode.WellFormed := by
  have h := i.toNat_encode
  have hd := decode_encode i
  generalize i.encode = w at h hd
  unfold Word.WellFormed
  rw [hd]
  unfold Instruction.number at h
  cases i with try simp only at h
  | add dr sr s | and dr sr s =>
    cases s with
    | register r =>
      simp only at h ⊢
      exact Word.field_eq (by simp; omega)
    | immediate v => trivial
  | jmp base | jsrr base => exact ⟨Word.field_eq (by simp; omega), Word.field_eq (by simp; omega)⟩
  | not dr sr => exact Word.field_eq (by simp; omega)
  | trap vector => exact Word.field_eq (by simp; omega)
  | rti => exact Word.field_eq (by simp; omega)
  | reserved => exact absurd rfl hi
  | _ => trivial

end LC3
