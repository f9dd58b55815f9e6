import LC3.Machine.Step
import LC3.Proofs.Instruction.Format
import LC3.Proofs.Machine.Architecture
import LC3.Proofs.Memory

/-!
# Steps refine the architecture

`Machine.view` is what the architecture sees of a machine. `step_iff` shows that a step, on a
machine to which only the keyboard and the display are attached, leads exactly to the state that the
architecture prescribes, and touches nothing else.
-/

namespace LC3

open Architecture (field signed displace withReady flagged)

/-- The bus to which only the keyboard and the display are attached. -/
def Bus.devices : Bus :=
  Machine.powerOn.attachDevices.bus

/-- What the architecture sees of a machine. -/
def Machine.view (m : Machine) : Architecture.State where
  reg := m.get
  pc := m.pc
  ir := m.registers.ir
  psr := m.registers.psr
  mem := m.memory.peek
  input := m.console.input
  output := m.console.output.toList
  depth := m.depth

/-! ## Fields -/

theorem register_eq_extract (w : Word) (low : Nat) :
    Architecture.register w low = w.register low := by
  apply BitVec.eq_of_toNat_eq
  rw [Architecture.register, BitVec.toNat_ofNat, field, Word.register, Word.toNat_field]
  omega

theorem signed_eq_toInt (w : Word) {count : Nat} (h : 0 < count) :
    signed w count = (w.extractLsb' 0 count).toInt := by
  obtain ⟨k, rfl⟩ := Nat.exists_eq_add_of_lt h
  rw [BitVec.toInt_eq_toNat_cond, Word.toNat_field, signed, field]
  simp only [Nat.zero_add, Nat.add_sub_cancel, Nat.pow_succ]
  split <;> split <;> first | rfl | omega

theorem displace_toInt {n : Nat} (a : Word) (v : BitVec n) :
    displace a v.toInt = a + v.signExtend 16 := by
  rw [displace, BitVec.signExtend, BitVec.ofInt_add, BitVec.ofInt_natCast, BitVec.ofNat_toNat,
    BitVec.setWidth_eq]

theorem displace_one (a : Word) : displace a 1 = a + 1 :=
  displace_toInt a (1#2)

theorem clearReady_eq (w : Word) : w &&& ~~~readyBit = withReady w false := by
  have h : ~~~readyBit = 0x7FFF#16 := by decide
  apply BitVec.eq_of_toNat_eq
  rw [h, withReady, BitVec.toNat_and, BitVec.toNat_ofNat, BitVec.toNat_ofNat, field]
  have := Nat.and_two_pow_sub_one_eq_mod w.toNat 15
  simp only [Nat.reducePow, Nat.add_one_sub_one, Nat.reduceMod, Bool.false_eq_true,
    ↓reduceIte] at this ⊢
  omega

theorem setReady_eq (w : Word) : withReady w false ||| readyBit = withReady w true := by
  have hlt : field w 0 15 < 2 ^ 15 := Nat.mod_lt _ (by decide)
  have hor := Nat.two_pow_add_eq_or_of_lt hlt 1
  have hbit : readyBit.toNat = 32768 := rfl
  apply BitVec.eq_of_toNat_eq
  rw [withReady, withReady, BitVec.toNat_or, BitVec.toNat_ofNat, BitVec.toNat_ofNat, hbit]
  generalize field w 0 15 = n at hlt hor
  simp only [Bool.false_eq_true, ↓reduceIte, Nat.add_zero, Nat.reducePow, Nat.mul_one] at hlt hor ⊢
  rw [Nat.mod_eq_of_lt (show n < 65536 by omega), Nat.mod_eq_of_lt (by omega), Nat.or_comm, ← hor,
    Nat.add_comm]

theorem toNat_bits_ofWord (v : Word) :
    (Condition.ofWord v).bits.toNat = if v.toInt < 0 then 4 else if v.toInt = 0 then 2 else 1 := by
  unfold Condition.ofWord
  by_cases hn : v.toInt < 0
  · simp only [hn, ↓reduceIte]
    rfl
  · have hz : v = 0 ↔ v.toInt = 0 := by rw [← BitVec.toInt_inj]; rfl
    by_cases h0 : v.toInt = 0
    · simp only [hz.mpr h0, ↓reduceIte]
      rfl
    · simp only [hn, mt hz.mp h0, h0, ↓reduceIte]
      rfl

theorem store_eq_flagged (psr v : Word) :
    (Condition.ofWord v).store psr = flagged psr v := by
  apply BitVec.eq_of_toNat_eq
  rw [Condition.store, toNat_append_eq, Word.toNat_field, toNat_bits_ofWord, flagged,
    BitVec.toNat_ofNat]
  have := psr.isLt
  split
  · omega
  · split <;> omega

/-! ## Effects -/

namespace Machine

variable {m : Machine}

theorem get_set (m : Machine) (r : Reg) (v : Word) (k : Reg) :
    (m.set r v).get k = if k = r then v else m.get k :=
  Registers.get_set m.registers r v k

theorem view_set (m : Machine) (r : Reg) (v : Word) : (m.set r v).view = m.view.setReg r v := by
  have h : (m.set r v).get = fun k => if k = r then v else m.get k := funext (m.get_set r v)
  unfold view
  rw [h]
  rfl

theorem view_jump (m : Machine) (a : Word) : (m.jump a).view = { m.view with pc := a } :=
  rfl

theorem view_result (m : Machine) (dr : Reg) (v : Word) :
    (m.result dr v).view = m.view.result dr v := by
  have h : (m.result dr v).view =
      { (m.set dr v).view with psr := (Condition.ofWord v).store m.registers.psr } := rfl
  rw [h, view_set, store_eq_flagged]
  rfl

theorem view_link (m : Machine) (a : Word) :
    ((m.set linkRegister m.pc).jump a).view = m.view.link a := by
  rw [view_jump, view_set]
  rfl

theorem view_call (m : Machine) (a : Word) :
    (m.call a).view = { m.view.link a with depth := m.depth + 1 } := by
  rw [← view_link]
  rfl

theorem view_poke (m : Machine) (a v : Word) :
    { m with memory := m.memory.poke a v }.view = m.view.setMem a v := by
  have h : (m.memory.poke a v).peek = fun b => if b = a then v else m.memory.peek b :=
    funext (m.memory.peek_poke a v)
  unfold view
  simp only [h]
  rfl

/-! ## Devices -/

theorem reader?_devices (a : Word) :
    Bus.devices.reader? a =
      if a = keyboardData then some .keyboard
      else if a = keyboardStatus ∨ a = displayStatus ∨ a = displayData then some .cell
      else none := by
  by_cases h1 : a = keyboardData
  · subst h1; rfl
  by_cases h2 : a = keyboardStatus
  · subst h2; rfl
  by_cases h3 : a = displayStatus
  · subst h3; rfl
  by_cases h4 : a = displayData
  · subst h4; rfl
  simp [Bus.devices, attachDevices, Bus.attach, powerOn, Bus.empty, h1, h2, h3, h4]

theorem writer?_devices (a : Word) :
    Bus.devices.writer? a =
      if a = displayData then some .display
      else if a = keyboardStatus ∨ a = keyboardData ∨ a = displayStatus then some .nothing
      else none := by
  by_cases h1 : a = keyboardData
  · subst h1; decide
  by_cases h2 : a = keyboardStatus
  · subst h2; decide
  by_cases h3 : a = displayStatus
  · subst h3; decide
  by_cases h4 : a = displayData
  · subst h4; decide
  simp [Bus.devices, attachDevices, Bus.attach, powerOn, Bus.empty, h1, h2, h3, h4]

/-- What no instruction changes: the symbols, the bus and what probes have noted. -/
structure SameOutside (m m' : Machine) : Prop where
  symbols : m'.symbols = m.symbols
  bus : m'.bus = m.bus
  accesses : m'.accesses = m.accesses

theorem SameOutside.refl (m : Machine) : m.SameOutside m :=
  ⟨rfl, rfl, rfl⟩

theorem SameOutside.trans {m m' m'' : Machine} (h : m.SameOutside m') (h' : m'.SameOutside m'') :
    m.SameOutside m'' :=
  ⟨h'.symbols.trans h.symbols, h'.bus.trans h.bus, h'.accesses.trans h.accesses⟩

theorem SameOutside.result {m' : Machine} (h : m.SameOutside m') (dr : Reg) (v : Word) :
    m.SameOutside (m'.result dr v) :=
  ⟨h.symbols, h.bus, h.accesses⟩

theorem clearReady_poke (m : Memory) (a : Word) :
    m.clearReady a = m.poke a (withReady (m.peek a) false) := by
  rw [Memory.clearReady, clearReady_eq]

/-- The cells after a character has been delivered, which may be the last one that waits. -/
theorem peek_delivered (m : Memory) (v : Word) (last : Bool) (b : Word) :
    (if last then (m.clearReady keyboardStatus).poke keyboardData v
      else ((m.clearReady keyboardStatus).poke keyboardData v).setReady keyboardStatus).peek b =
      if b = keyboardData then v
      else if b = keyboardStatus then withReady (m.peek keyboardStatus) !last else m.peek b := by
  have hne : keyboardStatus ≠ keyboardData := by decide
  rw [clearReady_poke]
  cases last with
  | true => simp only [↓reduceIte, Memory.peek_poke, Bool.not_true]
  | false =>
    simp only [Bool.false_eq_true, ↓reduceIte, Memory.setReady, Memory.peek_poke, if_neg hne,
      setReady_eq, Bool.not_false]
    by_cases h : b = keyboardStatus
    · rw [if_pos h, if_neg (h ▸ hne), if_pos h]
    · simp only [if_neg h]

theorem view_deliver (m : Machine) : m.deliver.view = m.view.key := by
  unfold deliver
  cases hi : m.console.input with
  | nil =>
    rw [Architecture.State.key, show m.view.input = [] from hi, clearReady_poke]
    exact view_poke m keyboardStatus _
  | cons c rest =>
    have hmem := funext (peek_delivered m.memory (lowByte c) rest.isEmpty)
    rw [Architecture.State.key, show m.view.input = c :: rest from hi]
    unfold view
    simp only [hmem]
    rfl

theorem sameOutside_deliver (m : Machine) : m.SameOutside m.deliver := by
  unfold deliver
  cases m.console.input <;> exact ⟨rfl, rfl, rfl⟩

/-- A read by an instruction is a load of the architecture. -/
theorem view_read (hb : m.bus = .devices) (a : Word) :
    ((m.read a).1, (m.read a).2.view) = m.view.load a ∧ m.SameOutside (m.read a).2 := by
  have hr : m.bus.reader? a = _ := congrArg (Bus.reader? · a) hb
  unfold read Architecture.State.load
  rw [hr, reader?_devices]
  by_cases hk : a = keyboardData
  · have hv : { m with touched := true }.deliver.view = m.view.key := view_deliver _
    rw [if_pos hk, if_pos (show a = 0xFE02 from hk), ← hv]
    have ho : m.SameOutside { m with touched := true } := ⟨rfl, rfl, rfl⟩
    exact ⟨rfl, ho.trans (sameOutside_deliver { m with touched := true })⟩
  · rw [if_neg hk, if_neg (show ¬ a = 0xFE02 from hk)]
    split
    · exact ⟨rfl, .refl m⟩
    · rename_i hc
      split at hc
      · cases hc
        exact ⟨rfl, rfl, rfl, rfl⟩
      · cases hc

theorem view_print (m : Machine) (v : Word) :
    (m.print v).view =
      { m.view.setMem displayStatus (withReady (m.memory.peek displayStatus) false) with
        output := m.view.output ++ [Char.ofNat (field v 0 8)] } := by
  have hc : (m.console.print (Char.ofNat (field v 0 8))).output.toList =
      m.console.output.toList ++ [Char.ofNat (field v 0 8)] := String.toList_push _
  have hf : field v 0 8 = v.toNat % 256 := by
    rw [field, Nat.pow_zero, Nat.div_one]
    rfl
  unfold print
  rw [clearReady_poke, ← view_poke, ← hf]
  unfold view
  simp only [hc]
  rfl

/-- A write by an instruction is a store of the architecture. -/
theorem view_write (hb : m.bus = .devices) (a v : Word) :
    (m.write a v).view = m.view.store a v ∧ m.SameOutside (m.write a v) := by
  have hw : m.bus.writer? a = _ := congrArg (Bus.writer? · a) hb
  unfold write Architecture.State.store
  rw [← view_poke]
  simp only [hw, writer?_devices]
  by_cases hk : a = displayData
  · rw [if_pos hk, if_pos (show a = 0xFE06 from hk)]
    exact ⟨view_print { m with memory := m.memory.poke a v, touched := true } v, rfl, rfl, rfl⟩
  · rw [if_neg hk, if_neg (show ¬ a = 0xFE06 from hk)]
    split
    · exact ⟨rfl, rfl, rfl, rfl⟩
    · rename_i hc
      split at hc
      · cases hc
        exact ⟨rfl, rfl, rfl, rfl⟩
      · cases hc

/-! ## Instructions -/

theorem displace_fromPC (w : Word) {n : Nat} (h : 0 < n) :
    displace m.view.pc (signed w n) = m.fromPC (w.extractLsb' 0 n) := by
  rw [signed_eq_toInt w h, displace_toInt]
  rfl

theorem displace_fromBase (w : Word) (base : Reg) :
    displace (m.view.reg base) (signed w 6) = m.fromBase base (w.extractLsb' 0 6) := by
  rw [signed_eq_toInt w (by decide), displace_toInt]
  rfl

theorem view_loadFrom (hb : m.bus = .devices) (dr : Reg) {a v : Word} {t : Architecture.State}
    (h : m.view.load a = (v, t)) :
    (m.loadFrom dr a).view = t.result dr v ∧ m.SameOutside (m.loadFrom dr a) := by
  obtain ⟨hr, ho⟩ := m.view_read hb a
  rw [h] at hr
  obtain ⟨rfl, rfl⟩ := Prod.mk.inj hr
  exact ⟨view_result _ dr _, ho.result dr _⟩

/-- The operation that the architecture selects by the opcode is the one that is decoded. -/
theorem decode_of_opcode {w : Word} {k : Nat} (h : Architecture.opcode w = k) :
    (w.extractLsb' 12 4).toNat = k := by
  rw [Word.toNat_field, ← h]
  rfl

theorem bit_of_field {w : Word} {i k : Nat} (h : field w i 1 = k) :
    w.getLsbD i = decide (k = 1) := by
  rw [Word.bit_eq, ← h]
  rfl

theorem toNat_testedBits (w : Word) (offset : BitVec 9) :
    ((Instruction.br (w.getLsbD 11) (w.getLsbD 10) (w.getLsbD 9) offset).testedBits).toNat =
      field w 9 3 := by
  unfold Instruction.testedBits
  simp only [toNat_append_eq, BitVec.toNat_ofBool, Word.toNat_bit, field]
  omega

theorem branches_iff (w psr : Word) (offset : BitVec 9) :
    (Instruction.br (w.getLsbD 11) (w.getLsbD 10) (w.getLsbD 9) offset).testedBits &&&
        psr.extractLsb' 0 3 = 0 ↔ field w 9 3 &&& field psr 0 3 = 0 := by
  rw [← BitVec.toNat_inj, BitVec.toNat_and, toNat_testedBits, Word.toNat_field]
  rfl

theorem vector_eq (w : Word) :
    BitVec.ofNat 16 (field w 0 8) = (w.extractLsb' 0 8).setWidth 16 := by
  rw [← BitVec.ofNat_toNat, Word.toNat_field]
  rfl

/-- Executing what a word stands for is what the architecture prescribes for the word. -/
theorem view_execute (hb : m.bus = .devices) {w : Word} {s' : Architecture.State}
    (h : Architecture.Executes w m.view s') : s' = (m.execute (decode w)).view := by
  cases h with
  | addRegister ho hk =>
    have hd : decode w = .add (w.register 9) (w.register 6) (.register (w.register 0)) := by
      simp only [decode, decode_of_opcode ho, Word.source, bit_of_field hk]
      rfl
    rw [hd, execute, view_result]
    simp only [register_eq_extract]
    rfl
  | addImmediate ho hk =>
    have hd : decode w = .add (w.register 9) (w.register 6) (.immediate (w.extractLsb' 0 5)) := by
      simp only [decode, decode_of_opcode ho, Word.source, bit_of_field hk]
      rfl
    rw [hd, execute, view_result, signed_eq_toInt w (by decide), displace_toInt]
    simp only [register_eq_extract]
    rfl
  | andRegister ho hk =>
    have hd : decode w = .and (w.register 9) (w.register 6) (.register (w.register 0)) := by
      simp only [decode, decode_of_opcode ho, Word.source, bit_of_field hk]
      rfl
    rw [hd, execute, view_result]
    simp only [register_eq_extract]
    rfl
  | andImmediate ho hk =>
    have hd : decode w = .and (w.register 9) (w.register 6) (.immediate (w.extractLsb' 0 5)) := by
      simp only [decode, decode_of_opcode ho, Word.source, bit_of_field hk]
      rfl
    rw [hd, execute, view_result, signed_eq_toInt w (by decide)]
    simp only [register_eq_extract]
    rfl
  | not ho =>
    have hd : decode w = .not (w.register 9) (w.register 6) := by
      simp only [decode, decode_of_opcode ho]
    rw [hd, execute, view_result]
    simp only [register_eq_extract]
    rfl
  | branch ho hc =>
    have hd : decode w = .br (w.getLsbD 11) (w.getLsbD 10) (w.getLsbD 9) (w.extractLsb' 0 9) := by
      simp only [decode, decode_of_opcode ho]
    rw [hd, execute, if_neg (mt (branches_iff w m.registers.psr _).mp hc), view_jump,
      displace_fromPC w (by decide)]
  | noBranch ho hc =>
    have hd : decode w = .br (w.getLsbD 11) (w.getLsbD 10) (w.getLsbD 9) (w.extractLsb' 0 9) := by
      simp only [decode, decode_of_opcode ho]
    rw [hd, execute, if_pos ((branches_iff w m.registers.psr _).mpr hc)]
  | jmp ho hb7 =>
    have hd : decode w = .jmp (w.register 6) := by simp only [decode, decode_of_opcode ho]
    rw [register_eq_extract] at hb7 ⊢
    rw [hd, execute, if_neg (show ¬ w.register 6 = linkRegister from hb7)]
    rfl
  | ret ho hb7 =>
    have hd : decode w = .jmp (w.register 6) := by simp only [decode, decode_of_opcode ho]
    rw [register_eq_extract] at hb7
    rw [hd, execute, hb7]
    rfl
  | jsr ho hk =>
    have hd : decode w = .jsr (w.extractLsb' 0 11) := by
      simp only [decode, decode_of_opcode ho, bit_of_field hk]
      rfl
    rw [hd, execute, view_call, displace_fromPC w (by decide)]
    rfl
  | jsrr ho hk =>
    have hd : decode w = .jsrr (w.register 6) := by
      simp only [decode, decode_of_opcode ho, bit_of_field hk]
      rfl
    rw [hd, execute, view_call, register_eq_extract]
    rfl
  | ld ho hv =>
    have hd : decode w = .ld (w.register 9) (w.extractLsb' 0 9) := by
      simp only [decode, decode_of_opcode ho]
    rw [displace_fromPC w (by decide)] at hv
    rw [hd, execute, (view_loadFrom hb _ hv).1, register_eq_extract]
  | ldi ho hp hv =>
    have hd : decode w = .ldi (w.register 9) (w.extractLsb' 0 9) := by
      simp only [decode, decode_of_opcode ho]
    rw [displace_fromPC w (by decide)] at hp
    obtain ⟨hr, hs⟩ := m.view_read hb (m.fromPC (w.extractLsb' 0 9))
    rw [hp] at hr
    obtain ⟨rfl, rfl⟩ := Prod.mk.inj hr
    rw [hd, execute, (view_loadFrom (hs.bus.trans hb) _ hv).1, register_eq_extract]
  | ldr ho hv =>
    have hd : decode w = .ldr (w.register 9) (w.register 6) (w.extractLsb' 0 6) := by
      simp only [decode, decode_of_opcode ho]
    rw [register_eq_extract, displace_fromBase] at hv
    rw [hd, execute, (view_loadFrom hb _ hv).1, register_eq_extract]
  | lea ho =>
    have hd : decode w = .lea (w.register 9) (w.extractLsb' 0 9) := by
      simp only [decode, decode_of_opcode ho]
    rw [hd, execute, view_result, displace_fromPC w (by decide), register_eq_extract]
  | st ho =>
    have hd : decode w = .st (w.register 9) (w.extractLsb' 0 9) := by
      simp only [decode, decode_of_opcode ho]
    rw [hd, execute, (view_write hb _ _).1, displace_fromPC w (by decide), register_eq_extract]
    rfl
  | sti ho hp =>
    have hd : decode w = .sti (w.register 9) (w.extractLsb' 0 9) := by
      simp only [decode, decode_of_opcode ho]
    rw [displace_fromPC w (by decide)] at hp
    obtain ⟨hr, hs⟩ := m.view_read hb (m.fromPC (w.extractLsb' 0 9))
    rw [hp] at hr
    obtain ⟨rfl, rfl⟩ := Prod.mk.inj hr
    -- The pointer may come from the keyboard, but the stored register is the same before and after.
    have hget : m.view.reg = (m.read (m.fromPC (w.extractLsb' 0 9))).2.view.reg := by
      rw [← m.view.reg_load (m.fromPC (w.extractLsb' 0 9)), hp]
    rw [hd, execute, (view_write (hs.bus.trans hb) _ _).1, register_eq_extract, hget]
    rfl
  | str ho =>
    have hd : decode w = .str (w.register 9) (w.register 6) (w.extractLsb' 0 6) := by
      simp only [decode, decode_of_opcode ho]
    rw [hd, execute, (view_write hb _ _).1]
    simp only [register_eq_extract, displace_fromBase]
    rfl
  | trap ho =>
    have hd : decode w = .trap (w.extractLsb' 0 8) := by simp only [decode, decode_of_opcode ho]
    obtain ⟨hr, -⟩ := (m.set linkRegister m.pc).view_read hb ((w.extractLsb' 0 8).setWidth 16)
    -- No device is read through a vector, so the two sides may read before and after linking.
    rw [← vector_eq, Architecture.State.load_vector, view_set] at hr
    obtain ⟨h1, h2⟩ := Prod.mk.inj hr
    rw [hd, execute, view_jump, ← vector_eq, h1, h2]
    rfl
  | rti ho =>
    have hd : decode w = .rti := by simp only [decode, decode_of_opcode ho]
    rw [hd, execute]
  | reserved ho =>
    have hd : decode w = .reserved := by simp only [decode, decode_of_opcode ho]
    rw [hd, execute]

theorem SameOutside.jump {m' : Machine} (h : m.SameOutside m') (a : Word) :
    m.SameOutside (m'.jump a) :=
  ⟨h.symbols, h.bus, h.accesses⟩

theorem sameOutside_execute (hb : m.bus = .devices) (i : Instruction) :
    m.SameOutside (m.execute i) := by
  cases i with
  | add | and | not | lea => exact (SameOutside.refl m).result _ _
  | br n z p offset =>
    rw [execute]
    split
    · exact .refl m
    · exact (SameOutside.refl m).jump _
  | jmp base =>
    rw [execute]
    split <;> exact ⟨rfl, rfl, rfl⟩
  | jsr | jsrr => exact ⟨rfl, rfl, rfl⟩
  | ld dr offset => exact (view_loadFrom hb dr rfl).2
  | ldi dr offset =>
    have h := (m.view_read hb (m.fromPC offset)).2
    exact h.trans (view_loadFrom (h.bus.trans hb) dr rfl).2
  | ldr dr base offset => exact (view_loadFrom hb dr rfl).2
  | st sr offset => exact (view_write hb _ _).2
  | sti sr offset =>
    have h := (m.view_read hb (m.fromPC offset)).2
    exact h.trans (view_write (h.bus.trans hb) _ _).2
  | str sr base offset => exact (view_write hb _ _).2
  | trap vector =>
    have h : m.SameOutside (m.set linkRegister m.pc) := ⟨rfl, rfl, rfl⟩
    exact (h.trans (view_read (h.bus.trans hb) _).2).jump _
  | rti | reserved => exact .refl m

/-! ## Steps -/

/-- On a machine to which only the keyboard and the display are attached, a step leads to the one
state that the architecture prescribes, and leaves everything else as it is. -/
theorem step_iff (hb : m.bus = .devices) :
    (∀ s', Architecture.Step m.view s' ↔ s' = m.step.view) ∧ m.SameOutside m.step := by
  have ho : m.SameOutside m.fetch := ⟨rfl, rfl, rfl⟩
  have hf : m.fetch.view =
      { m.view with ir := m.view.mem m.view.pc, pc := displace m.view.pc 1 } := by
    rw [displace_one]
    rfl
  have hdet : ∀ s', Architecture.Step m.view s' → s' = m.step.view := by
    intro s' h
    rw [Architecture.Step, ← hf] at h
    exact view_execute (ho.bus.trans hb) h
  refine ⟨fun s' => ⟨hdet s', ?_⟩, ho.trans (sameOutside_execute (ho.bus.trans hb) _)⟩
  -- Some state is prescribed for every word, and it can only be this one.
  rintro rfl
  obtain ⟨s', h⟩ := Architecture.exists_executes (m.view.mem m.view.pc)
    { m.view with ir := m.view.mem m.view.pc, pc := displace m.view.pc 1 }
  exact hdet s' h ▸ h

/-- The pointer of an `LDI` leads to the keyboard, which has two characters. -/
theorem step_iff_keyboard :
    let m := (powerOn.attachDevices.load ⟨0x3000, [0xA000, 0xFE02], ∅⟩).push "hi"
    m.bus = .devices ∧ m.view.input = ['h', 'i'] ∧
      (∀ s', Architecture.Step m.view s' ↔ s' = m.step.view) ∧ m.SameOutside m.step :=
  ⟨rfl, rfl, step_iff rfl⟩

end Machine

end LC3
