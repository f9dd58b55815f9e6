import LC3.Proofs.Machine.Unbounded
import LC3.Proofs.Machine.Refinement
import LC3.Proofs.Word

/-!
# Words as integers

What the operations on integers, the lookups in lists and the decoded fields of
`LC3.Proofs.Machine.Unbounded` are on integers that stand for words: `value w` is the integer,
`values` the list of them, and `Decoded.ofInstruction` the fields of an instruction. `decode_value`
shows that decoding a word never fails and sets just the fields that its instruction has. The masks
of a sign extension are those of `Word.signedField` (`signExtend_eq`).
-/

namespace LC3.Unbounded

open Architecture (withReady)

/-- A bit vector as the number it stands for. -/
def value {n : Nat} (w : BitVec n) : Int :=
  w.toNat

/-! ## Integers -/

section Integers

variable {n : Nat}

theorem value_nonneg (v : BitVec n) : 0 ≤ value v :=
  Int.natCast_nonneg _

theorem value_le (w : Word) : value w ≤ 0xFFFF := by
  have := w.isLt
  unfold value
  omega

theorem mask_eq (n : Int) : mask n = value (Word.ofInt n) :=
  (Word.toNat_ofInt n).symm

@[simp] theorem ofInt_value (w : Word) : Word.ofInt (value w) = w :=
  w.ofInt_toNat

@[simp] theorem mask_value (w : Word) : mask (value w) = value w := by
  rw [mask_eq, ofInt_value]

theorem value_ofInt {v : Int} (h : 0 ≤ v ∧ v ≤ 0xFFFF) : value (Word.ofInt v) = v := by
  rw [← mask_eq, mask]
  omega

theorem bits_value (w : Word) (low count : Nat) :
    bits (value w) low count = value (w.extractLsb' low count) := by
  rw [bits, value, value, Word.toNat_field]
  push_cast
  rfl

theorem bits_low (n : Int) (count : Nat) : bits n 0 count = value (BitVec.ofInt count n) := by
  rw [bits, value, Word.toNat_ofInt_field, pow_zero, Int.ediv_one]

theorem bit_value (v : BitVec n) (i : Nat) : bits (value v) i 1 = (v.getLsbD i).toNat := by
  rw [bits, value, Word.toNat_bit, pow_one]
  push_cast
  rfl

theorem signed16_eq (n : Int) : signed16 n = (Word.ofInt n).toInt := by
  rw [signed16, mask_eq, bit_value, BitVec.toInt_eq_msb_cond, BitVec.msb_eq_getLsbD_last]
  cases (Word.ofInt n).getLsbD 15 <;> rfl

/-- The masks and the test of the sign bit give the balanced residue, at every width. -/
theorem signExtend_eq (n : Int) (count : Nat) : signExtend n count = Word.signedField n count := by
  rw [Word.signedField, Nat.one_shiftLeft, ← BitVec.toInt_ofInt, ← signed16_eq,
    BitVec.toInt_eq_msb_cond, BitVec.msb_eq_getLsbD_last, signExtend]
  simp only [bits_low, bit_value]
  cases (BitVec.ofInt count n).getLsbD (count - 1) <;> rfl

theorem signExtend_value (w : Word) (count : Nat) (h : count ≤ 16) :
    signExtend (value w) count = (w.extractLsb' 0 count).toInt := by
  rw [signExtend_eq, Word.signedField_eq_field h, ofInt_value]

/-- A number below 2^16 by its last fifteen bits and the one before them. -/
theorem toNat_ready (w : Word) :
    w.toNat = Architecture.field w 0 15 + (w.getLsbD 15).toNat * 0x8000 := by
  have := w.isLt
  rw [Word.toNat_bit, Architecture.field]
  omega

theorem value_withReady (w : Word) (ready : Bool) :
    value (withReady w ready) = Architecture.field w 0 15 + if ready then 0x8000 else 0 := by
  have : Architecture.field w 0 15 < 2 ^ 15 := Nat.mod_lt _ (by decide)
  rw [value, withReady, BitVec.toNat_ofNat]
  split <;> omega

theorem clearReady_value (w : Word) : clearReady (value w) = value (withReady w false) := by
  rw [value_withReady, clearReady, bits_value, value, Word.toNat_field]
  exact (add_zero _).symm

theorem setReady_value (w : Word) : setReady (value w) = value (withReady w true) := by
  rw [value_withReady, setReady, bit_value, value, toNat_ready]
  cases w.getLsbD 15
  · simp
  · simp

theorem or_readyBit (w : Word) : w ||| readyBit = withReady w true := by
  rw [← setReady_eq, ← clearReady_eq]
  ext i hi
  simp only [BitVec.getElem_or, BitVec.getElem_and, BitVec.getElem_not]
  cases w[i] <;> cases readyBit[i] <;> rfl

end Integers

/-! ## Lookups -/

theorem ok_bind {ε α β : Type} (a : α) (f : α → Except ε β) : (Except.ok a >>= f) = f a :=
  rfl

theorem pure_eq {ε α : Type} (a : α) : (pure a : Except ε α) = .ok a :=
  rfl

/-- The list of what a vector of words holds. -/
def values {n : Nat} (ws : Vector Word n) : List Int :=
  ws.toList.map value

theorem item_values {n k : Nat} (ws : Vector Word n) (i : BitVec k) (h : i.toNat < n) :
    item (values ws) (value i) = .ok (value ws[i.toNat]) := by
  rw [item, if_pos (value_nonneg i), value, Int.toNat_natCast, values, List.getElem?_map,
    List.getElem?_eq_getElem (by simpa using h)]
  simp

theorem setItem_values {n k : Nat} (ws : Vector Word n) (i : BitVec k) (h : i.toNat < n)
    (v : Word) : setItem (values ws) (value i) (value v) = .ok (values (ws.set i.toNat v)) := by
  have hi : value i < (values ws).length := by
    simpa [values, value] using h
  rw [setItem, if_pos ⟨value_nonneg i, hi⟩, values, values, Vector.toList_set, List.map_set]
  rfl

theorem mem_values {n : Nat} {ws : Vector Word n} {v : Int} (h : v ∈ values ws) :
    0 ≤ v ∧ v ≤ 0xFFFF := by
  obtain ⟨w, -, rfl⟩ := List.mem_map.mp h
  exact ⟨value_nonneg w, value_le w⟩

theorem exists_values {n : Nat} {xs : List Int} (hn : xs.length = n)
    (h : ∀ v ∈ xs, 0 ≤ v ∧ v ≤ 0xFFFF) : ∃ ws : Vector Word n, values ws = xs := by
  refine ⟨⟨(xs.map Word.ofInt).toArray, by simpa using hn⟩, ?_⟩
  rw [values, Vector.toList_mk, List.map_map]
  exact (List.map_congr_left fun v hv => value_ofInt (h v hv)).trans (List.map_id xs)

/-! ## Decoded words -/

namespace Decoded

def ofSource (d : Decoded) : Source → Decoded
  | .register r => { d with takesImmediate := false, sr2 := value r }
  | .immediate v => { d with takesImmediate := true, immediate := v.toInt }

theorem opname_ofSource (d : Decoded) (source : Source) :
    (d.ofSource source).opname = d.opname := by
  cases source <;> rfl

theorem dr_ofSource (d : Decoded) (source : Source) : (d.ofSource source).dr = d.dr := by
  cases source <;> rfl

theorem sr1_ofSource (d : Decoded) (source : Source) : (d.ofSource source).sr1 = d.sr1 := by
  cases source <;> rfl

/-- The fields that an instruction has. -/
def ofInstruction : Instruction → Decoded
  | .add dr sr source => ofSource { opname := .add, dr := value dr, sr1 := value sr } source
  | .and dr sr source => ofSource { opname := .and, dr := value dr, sr1 := value sr } source
  | .not dr sr => { opname := .not, dr := value dr, sr := value sr }
  | .br n z p offset => { opname := .br, offset := offset.toInt, n, z, p }
  | .jmp base =>
    { opname := if base = linkRegister then .ret else .jmp, base := value base, offset := some 0 }
  | .jsr offset => { opname := .jsr, offset := offset.toInt }
  | .jsrr base => { opname := .jsrr, base := value base, offset := some 0 }
  | .ld dr offset => { opname := .ld, dr := value dr, offset := offset.toInt }
  | .ldi dr offset => { opname := .ldi, dr := value dr, offset := offset.toInt }
  | .ldr dr base offset =>
    { opname := .ldr, dr := value dr, base := value base, offset := offset.toInt }
  | .lea dr offset => { opname := .lea, dr := value dr, offset := offset.toInt }
  | .st sr offset => { opname := .st, sr := value sr, offset := offset.toInt }
  | .sti sr offset => { opname := .sti, sr := value sr, offset := offset.toInt }
  | .str sr base offset =>
    { opname := .str, sr := value sr, base := value base, offset := offset.toInt }
  | .trap vector => { opname := .trap, vector := value vector }
  | .rti => { opname := .rti }
  | .reserved => { opname := .rsrv }

theorem arithmetic_value (opname : Opname) (w : Word) :
    arithmetic opname (value w) =
      ofSource { opname, dr := value (w.register 9), sr1 := value (w.register 6) } w.source := by
  unfold arithmetic Word.source
  rw [bit_value w 5]
  simp only [bits_value, signExtend_value w 5 (by decide)]
  cases w.getLsbD 5 <;> rfl

theorem branch_value (w : Word) :
    branch (value w) = ofInstruction
      (.br (w.getLsbD 11) (w.getLsbD 10) (w.getLsbD 9) (w.extractLsb' 0 9)) := by
  unfold branch
  simp only [bit_value, signExtend_value w 9 (by decide)]
  cases w.getLsbD 11 <;> cases w.getLsbD 10 <;> cases w.getLsbD 9 <;> rfl

theorem jump_value (w : Word) : jump (value w) = ofInstruction (.jmp (w.register 6)) := by
  have h : value (w.extractLsb' 6 3) = 7 ↔ w.register 6 = linkRegister := by
    rw [← BitVec.toNat_inj]
    exact Int.natCast_inj
  unfold jump
  simp only [bits_value, h]
  rfl

theorem pcLoad_value (opname : Opname) (w : Word) :
    pcLoad opname (value w) =
      { opname, dr := value (w.register 9), offset := (w.extractLsb' 0 9).toInt } := by
  unfold pcLoad
  simp only [bits_value, signExtend_value w 9 (by decide)]
  rfl

theorem pcStore_value (opname : Opname) (w : Word) :
    pcStore opname (value w) =
      { opname, sr := value (w.register 9), offset := (w.extractLsb' 0 9).toInt } := by
  unfold pcStore
  simp only [bits_value, signExtend_value w 9 (by decide)]
  rfl

theorem call_value (w : Word) :
    call (value w) = ofInstruction
      (if w.getLsbD 11 then .jsr (w.extractLsb' 0 11) else .jsrr (w.register 6)) := by
  unfold call
  rw [bit_value w 11]
  simp only [bits_value, signExtend_value w 11 (by decide)]
  cases w.getLsbD 11 <;> rfl

/-- The two fields by which a run knows that it has ended. -/
theorem halts_iff (i : Instruction) :
    (ofInstruction i).opname = .trap ∧ (ofInstruction i).vector = some 0x25 ↔
      i = .trap haltVector := by
  cases i with
  | trap vector =>
    have h : value vector = 0x25 ↔ vector = haltVector := by
      rw [← BitVec.toNat_inj]
      exact Int.natCast_inj
    simp only [ofInstruction, Option.some.injEq, h, true_and, Instruction.trap.injEq]
  | add dr sr source => simp [ofInstruction, opname_ofSource]
  | and dr sr source => simp [ofInstruction, opname_ofSource]
  | jmp base =>
    simp only [ofInstruction]
    split <;> simp
  | _ => simp [ofInstruction]

end Decoded

theorem decode_value (w : Word) : decode (value w) = .ok (.ofInstruction (LC3.decode w)) := by
  obtain ⟨k, hk⟩ : ∃ k : Nat, k = (w.extractLsb' 12 4).toNat := ⟨_, rfl⟩
  have hlt : k < 16 := hk ▸ (w.extractLsb' 12 4).isLt
  have hq : value w / 0x1000 = (k : Int) := by
    have := w.isLt
    rw [hk, Word.toNat_field, value]
    omega
  unfold decode LC3.decode
  simp only [mask_value, hq, ← hk]
  interval_cases k
  · exact congrArg Except.ok (Decoded.branch_value w)
  · exact congrArg Except.ok (Decoded.arithmetic_value .add w)
  · exact congrArg Except.ok (Decoded.pcLoad_value .ld w)
  · exact congrArg Except.ok (Decoded.pcStore_value .st w)
  · exact congrArg Except.ok (Decoded.call_value w)
  · exact congrArg Except.ok (Decoded.arithmetic_value .and w)
  · simp only [Nat.cast_ofNat, bits_value, signExtend_value w 6 (by decide)]
    rfl
  · simp only [Nat.cast_ofNat, bits_value, signExtend_value w 6 (by decide)]
    rfl
  · rfl
  · simp only [Nat.cast_ofNat, bits_value]
    rfl
  · exact congrArg Except.ok (Decoded.pcLoad_value .ldi w)
  · exact congrArg Except.ok (Decoded.pcStore_value .sti w)
  · exact congrArg Except.ok (Decoded.jump_value w)
  · rfl
  · exact congrArg Except.ok (Decoded.pcLoad_value .lea w)
  · simp only [Nat.cast_ofNat, bits_value]
    rfl

end LC3.Unbounded
