import LC3.Proofs.Machine.Integers

/-!
# The word range

Nothing that is done to a machine takes a cell or a register out of the words, and no step fails.
`Machine.ofWords` is a machine of words as one of unbounded integers, operation by operation the two
do the same, and so `Machine.wordSized_actAll` holds after any sequence of actions: the unbounded
machine masks wherever it must, names only registers that there are, and reads only fields that
decoding has set.
-/

namespace LC3.Unbounded

open Architecture (withReady flagged)

/-! ## The bus -/

/-- A reader of words, by wrapping the answers of probes. -/
def Reader.wrap : Reader → LC3.Reader
  | cell => .cell
  | keyboard => .keyboard
  | probe answer => .probe fun k => Word.ofInt (answer k)

namespace Bus

/-- The same is attached, with answers wrapped. -/
structure Represents (u : Bus) (bus : LC3.Bus) : Prop where
  reader : ∀ a : Word, (u.reader? (value a)).map Reader.wrap = bus.reader? a
  writer : ∀ a : Word, u.writer? (value a) = bus.writer? a

theorem Represents.empty : Represents .empty .empty :=
  ⟨fun _ => rfl, fun _ => rfl⟩

theorem exists_represents (u : Bus) : ∃ bus : LC3.Bus, u.Represents bus :=
  ⟨⟨fun a => (u.reader? (value a)).map Reader.wrap, fun a => u.writer? (value a)⟩,
    fun _ => rfl, fun _ => rfl⟩

variable {u : Bus} {bus : LC3.Bus}

theorem Represents.attach (h : u.Represents bus) {n : Int} {a : Word} (ha : Word.ofInt n = a)
    (reader : Option Reader) (writer : Option Writer) :
    (u.attach n reader writer).Represents (bus.attach a (reader.map Reader.wrap) writer) := by
  have hkey (b : Word) : value b = mask n ↔ b = a := by
    rw [mask_eq, ha]
    exact ⟨fun h => BitVec.eq_of_toNat_eq (Int.natCast_inj.mp h), congrArg value⟩
  refine ⟨fun b => ?_, fun b => ?_⟩
  · unfold Bus.attach LC3.Bus.attach
    simp only [hkey b, ← h.reader]
    split <;> cases reader <;> rfl
  · unfold Bus.attach LC3.Bus.attach
    simp only [hkey b, ← h.writer]

theorem Represents.attachDevices {m : LC3.Machine} (h : u.Represents m.bus) :
    u.attachDevices.Represents m.attachDevices.bus :=
  (((h.attach (a := keyboardStatus) rfl _ _).attach (a := keyboardData) rfl _ _).attach
    (a := displayStatus) rfl _ _).attach (a := displayData) rfl _ _

end Bus

namespace Machine

/-- A machine of words as one of integers, with a bus of its own. -/
def ofWords (m : LC3.Machine) (bus : Bus) : Machine where
  cells := values m.memory.cells
  general := values m.registers.general
  pc := value m.registers.pc
  ir := value m.registers.ir
  psr := value m.registers.psr
  symbols := m.symbols
  console := m.console
  depth := m.depth
  bus := bus
  touched := m.touched
  noted := m.accesses.length

theorem wordSized_ofWords (m : LC3.Machine) (bus : Bus) : (ofWords m bus).WordSized where
  length_cells := by simp [ofWords, values]
  length_general := by simp [ofWords, values]
  cells _ := mem_values
  general _ := mem_values
  pc := ⟨value_nonneg _, value_le _⟩
  ir := ⟨value_nonneg _, value_le _⟩
  psr := ⟨value_nonneg _, value_le _⟩

section

variable {m : LC3.Machine} {bus : Bus}

/-! ## Cells and registers -/

theorem item_cells (m : LC3.Machine) (a : Word) :
    item (values m.memory.cells) (value a) = .ok (value (m.memory.peek a)) :=
  item_values m.memory.cells a a.isLt

theorem peek_ofWords (a : Int) :
    (ofWords m bus).peek a = .ok (value (m.memory.peek (Word.ofInt a))) := by
  rw [peek, mask_eq]
  exact item_cells m _

theorem poke_ofWords (a v : Int) :
    (ofWords m bus).poke a v =
      .ok (ofWords { m with memory := m.memory.poke (Word.ofInt a) (Word.ofInt v) } bus) := by
  have h := setItem_values m.memory.cells (Word.ofInt a) (Word.ofInt a).isLt (Word.ofInt v)
  rw [poke, mask_eq, mask_eq, show (ofWords m bus).cells = values m.memory.cells from rfl, h]
  rfl

theorem index_value (r : Reg) : index (some (value r)) = .ok (value r) := by
  have : value r < 8 := by
    have := r.isLt
    unfold value
    omega
  exact if_pos ⟨value_nonneg r, this⟩

theorem get_ofWords (r : Reg) : (ofWords m bus).get (some (value r)) = .ok (value (m.get r)) := by
  rw [get, index_value]
  exact item_values m.registers.general r r.isLt

theorem set_ofWords (r : Reg) (v : Int) :
    (ofWords m bus).set (some (value r)) v = .ok (ofWords (m.set r (Word.ofInt v)) bus) := by
  have h := setItem_values m.registers.general r r.isLt (Word.ofInt v)
  rw [set, index_value, ok_bind, mask_eq,
    show (ofWords m bus).general = values m.registers.general from rfl, h]
  rfl

theorem jump_ofWords (a : Int) :
    (ofWords m bus).jump a = ofWords (m.jump (Word.ofInt a)) bus := by
  rw [jump, mask_eq]
  rfl

theorem setCondition_ofWords (v : Int) :
    (ofWords m bus).setCondition v =
      ofWords { m with registers := m.registers.setCondition (Word.ofInt v) } bus := by
  have hpsr : mask (value m.registers.psr - value m.registers.psr % 8) +
      (if signed16 v < 0 then 4 else if signed16 v = 0 then 2 else 1) =
      value ((Condition.ofWord (Word.ofInt v)).store m.registers.psr) := by
    have := m.registers.psr.isLt
    rw [store_eq_flagged, flagged, signed16_eq, mask, value, value, BitVec.toNat_ofNat]
    split
    · omega
    · split <;> omega
  unfold setCondition
  simp only [show (ofWords m bus).psr = value m.registers.psr from rfl, hpsr]
  rfl

theorem result_ofWords (r : Reg) (v : Int) :
    (ofWords m bus).result (some (value r)) v = .ok (ofWords (m.result r (Word.ofInt v)) bus) := by
  rw [result, set_ofWords, ok_bind, setCondition_ofWords]
  rfl

/-! ## Accesses of instructions -/

theorem withReady_withReady (w : Word) : withReady (withReady w false) true = withReady w true := by
  rw [← or_readyBit, setReady_eq]

/-- Delivering writes the two registers of the keyboard one after the other, in either order. -/
theorem delivered_eq (m : Memory) (v : Word) (last : Bool) :
    (m.poke keyboardData v).poke keyboardStatus (withReady (m.peek keyboardStatus) !last) =
      if last then (m.clearReady keyboardStatus).poke keyboardData v
      else ((m.clearReady keyboardStatus).poke keyboardData v).setReady keyboardStatus := by
  have hne : keyboardStatus ≠ keyboardData := by decide
  refine Memory.ext_peek fun b => ?_
  rw [LC3.Machine.peek_delivered, Memory.peek_poke, Memory.peek_poke]
  by_cases h : b = keyboardStatus
  · rw [if_pos h, if_neg (h ▸ hne), if_pos h]
  · rw [if_neg h, if_neg h]

theorem takeCharacter_ofWords (bus : Bus) {c : Char} {rest : List Char}
    (h : m.console.input = c :: rest) :
    (ofWords m bus).takeCharacter = .ok (ofWords { m with
      console := { m.console with input := rest }
      memory := m.memory.poke keyboardData (lowByte c) } bus) := by
  have hb : Word.ofInt (c.toNat % 256) = lowByte c := by
    rw [Word.ofInt, lowByte, ← BitVec.ofInt_natCast]
    rfl
  have hpoke : (ofWords { m with console := { m.console with input := rest } } bus).poke _ _ = _ :=
    poke_ofWords 0xFE02 (c.toNat % 256)
  rw [hb] at hpoke
  rw [takeCharacter, show (ofWords m bus).console.input = _ from h]
  exact hpoke

theorem deliver_ofWords : (ofWords m bus).deliver = .ok (ofWords m.deliver bus) := by
  have hs : Word.ofInt 0xFE00 = keyboardStatus := by decide
  rw [deliver, peek_ofWords, ok_bind, hs, clearReady_value, LC3.Machine.deliver]
  cases hi : m.console.input with
  | nil =>
    have hc : (ofWords m bus).console.input = [] := hi
    rw [takeCharacter, hc, pure_eq, ok_bind, hc, List.isEmpty_nil, if_pos rfl, poke_ofWords, hs,
      ofInt_value, ← LC3.Machine.clearReady_poke]
  | cons c rest =>
    have hr : (if rest.isEmpty then value (withReady (m.memory.peek keyboardStatus) false)
        else setReady (value (withReady (m.memory.peek keyboardStatus) false))) =
        value (withReady (m.memory.peek keyboardStatus) !rest.isEmpty) := by
      cases rest.isEmpty with
      | true => rfl
      | false =>
        rw [Bool.not_false, ← withReady_withReady, ← setReady_value]
        rfl
    rw [takeCharacter_ofWords bus hi, ok_bind]
    change poke _ _ (if rest.isEmpty then _ else _) = _
    rw [hr, poke_ofWords, hs, ofInt_value]
    simp only [← delivered_eq]

theorem print_ofWords (v : Word) :
    (ofWords m bus).print (value v) = .ok (ofWords (m.print v) bus) := by
  have hs : Word.ofInt 0xFE04 = displayStatus := by decide
  have hv : (value v % 256).toNat = v.toNat % 256 := by
    unfold value
    omega
  rw [print, peek_ofWords, ok_bind, poke_ofWords, ok_bind, hs, clearReady_value, ofInt_value,
    ← LC3.Machine.clearReady_poke, hv]
  rfl

theorem touch_ofWords : (ofWords m bus).touch = ofWords { m with touched := true } bus :=
  rfl

theorem note_ofWords (access : Access) :
    (ofWords m bus).note = ofWords (m.note access) bus := by
  have h : m.accesses.length + 1 = (m.accesses ++ [access]).length := by simp
  unfold note ofWords
  rw [h]
  rfl

theorem read_ofWords (h : bus.Represents m.bus) (a : Int) :
    (ofWords m bus).read a =
      .ok (value (m.read (Word.ofInt a)).1, ofWords (m.read (Word.ofInt a)).2 bus) := by
  have hr := h.reader (Word.ofInt a)
  rw [read, mask_eq, LC3.Machine.read, ← hr, show (ofWords m bus).bus = bus from rfl]
  cases bus.reader? (value (Word.ofInt a)) with
  | none =>
    rw [show (ofWords m bus).cells = values m.memory.cells from rfl, item_cells]
    rfl
  | some reader =>
    rw [touch_ofWords]
    cases reader with
    | cell =>
      simp only [answer, peek_ofWords, ofInt_value, ok_bind, pure_eq, Prod.map_apply, mask_value]
      rfl
    | keyboard =>
      have hd : Word.ofInt 0xFE02 = keyboardData := by decide
      simp only [answer, deliver_ofWords, ok_bind, peek_ofWords, hd, pure_eq, Prod.map_apply,
        mask_value]
      rfl
    | probe f =>
      simp only [answer, pure_eq, ok_bind, Prod.map_apply, mask_eq,
        note_ofWords (.read (Word.ofInt a))]
      rfl

theorem write_ofWords (h : bus.Represents m.bus) (a v : Int) :
    (ofWords m bus).write a v = .ok (ofWords (m.write (Word.ofInt a) (Word.ofInt v)) bus) := by
  have hw := h.writer (Word.ofInt a)
  have hstore := setItem_values m.memory.cells (Word.ofInt a) (Word.ofInt a).isLt (Word.ofInt v)
  let stored : LC3.Machine :=
    { m with memory := m.memory.poke (Word.ofInt a) (Word.ofInt v), touched := true }
  rw [write, mask_eq, mask_eq, show (ofWords m bus).cells = values m.memory.cells from rfl,
    hstore, ok_bind, LC3.Machine.write]
  simp only [← hw, show (ofWords m bus).bus = bus from rfl]
  cases bus.writer? (value (Word.ofInt a)) with
  | none => rfl
  | some writer =>
    cases writer with
    | nothing => rfl
    | display => exact print_ofWords (m := stored) _
    | probe => exact congrArg Except.ok (note_ofWords (m := stored) _)

/-! ## Execution -/

theorem ofInt_displaced {n : Nat} (a : Word) (offset : BitVec n) :
    Word.ofInt (value a + offset.toInt) = a + offset.signExtend 16 :=
  displace_toInt a offset

theorem fromPC_ofWords {n : Nat} (offset : BitVec n) :
    (ofWords m bus).fromPC (some offset.toInt) = .ok (value (m.fromPC offset)) := by
  rw [LC3.Machine.fromPC, ← ofInt_displaced, ← mask_eq]
  rfl

theorem fromBase_ofWords (base : Reg) (offset : BitVec 6) :
    (ofWords m bus).fromBase (some (value base)) (some offset.toInt) =
      .ok (value (m.fromBase base offset)) := by
  rw [fromBase, get_ofWords, ok_bind, LC3.Machine.fromBase, ← ofInt_displaced, ← mask_eq]
  rfl

theorem lastOperand_ofWords (d : Decoded) (source : Source) :
    (ofWords m bus).lastOperand (d.ofSource source) = .ok (value (m.sourceValue source)) := by
  cases source with
  | register r => exact get_ofWords r
  | immediate v => exact congrArg Except.ok (mask_eq v.toInt)

theorem ofInt_sum (a b : Word) : Word.ofInt (value a + value b) = a + b := by
  rw [Word.ofInt, BitVec.ofInt_add]
  exact congrArg₂ _ (ofInt_value a) (ofInt_value b)

theorem ofInt_complement (a : Word) : Word.ofInt (-value a - 1) = ~~~a := by
  have := a.isLt
  apply BitVec.eq_of_toNat_eq
  rw [Word.ofInt, BitVec.toNat_ofInt, BitVec.toNat_not, value]
  omega

theorem land_value (a b : Word) : Int.land (value a) (value b) = value (a &&& b) :=
  congrArg Int.ofNat (BitVec.toNat_and a b).symm

theorem loadFrom_ofWords (h : bus.Represents m.bus) (dr : Reg) (a : Word) :
    (ofWords m bus).loadFrom (some (value dr)) (value a) = .ok (ofWords (m.loadFrom dr a) bus) := by
  rw [loadFrom, read_ofWords h, ok_bind, ofInt_value]
  simp only [result_ofWords, ofInt_value]
  rfl

theorem link_ofWords : (ofWords m bus).link = .ok (ofWords (m.set linkRegister m.pc) bus) := by
  have h : (ofWords m bus).set _ _ = _ := set_ofWords linkRegister (value m.pc)
  rwa [ofInt_value] at h

theorem call_ofWords (a : Word) :
    (ofWords m bus).call (value a) = .ok (ofWords (m.call a) bus) := by
  rw [call, link_ofWords, ok_bind, jump_ofWords, ofInt_value]
  rfl

theorem tested_value (n z p : Bool) (offset : BitVec 9) (psr : Word) :
    bits (Int.land (4 * n.toInt + 2 * z.toInt + p.toInt) (value psr)) 0 3 = 0 ↔
      (Instruction.br n z p offset).testedBits &&& psr.extractLsb' 0 3 = 0 := by
  have ht : 4 * n.toInt + 2 * z.toInt + p.toInt =
      ((Instruction.br n z p offset).testedBits.toNat : Int) := by
    cases n <;> cases z <;> cases p <;> rfl
  have hlt := (Instruction.br n z p offset).testedBits.isLt
  have hland : Int.land ((Instruction.br n z p offset).testedBits.toNat : Int) (value psr) =
      ((((Instruction.br n z p offset).testedBits.toNat &&& psr.toNat : Nat)) : Int) := rfl
  have hmod := Nat.and_mod_two_pow (a := (Instruction.br n z p offset).testedBits.toNat)
    (b := psr.toNat) (n := 3)
  rw [Nat.mod_eq_of_lt hlt] at hmod
  rw [ht, hland, bits, ← BitVec.toNat_inj, BitVec.toNat_and, Word.toNat_field, pow_zero, pow_zero,
    Nat.div_one, ← hmod, Int.ediv_one]
  exact_mod_cast Iff.rfl

theorem execute_ofWords (h : bus.Represents m.bus) (i : Instruction) :
    (ofWords m bus).execute (.ofInstruction i) = .ok (ofWords (m.execute i) bus) := by
  cases i with
  | add dr sr source =>
    simp only [execute, Decoded.ofInstruction, Decoded.opname_ofSource, Decoded.dr_ofSource,
      Decoded.sr1_ofSource, get_ofWords, lastOperand_ofWords, ok_bind, result_ofWords, ofInt_sum]
    rfl
  | and dr sr source =>
    simp only [execute, Decoded.ofInstruction, Decoded.opname_ofSource, Decoded.dr_ofSource,
      Decoded.sr1_ofSource, get_ofWords, lastOperand_ofWords, ok_bind, result_ofWords, land_value,
      ofInt_value]
    rfl
  | not dr sr =>
    simp only [execute, Decoded.ofInstruction, get_ofWords, ok_bind, result_ofWords,
      ofInt_complement]
    rfl
  | br n z p offset =>
    simp only [execute, Decoded.ofInstruction, Decoded.nzp, field, Option.elim_some, ok_bind,
      fromPC_ofWords, pure_eq]
    rw [show (ofWords m bus).psr = value m.registers.psr from rfl]
    simp only [tested_value n z p offset, LC3.Machine.execute]
    split
    · rfl
    · rw [jump_ofWords, ofInt_value]
  | jmp base =>
    have hlink : (ofWords m bus).get (some 7) = _ := get_ofWords linkRegister
    simp only [execute, Decoded.ofInstruction, LC3.Machine.execute]
    by_cases hb : base = linkRegister
    · simp only [hb, hlink, ok_bind, pure_eq, jump_ofWords, ofInt_value]
      rfl
    · simp only [if_neg hb, get_ofWords, ok_bind, pure_eq, jump_ofWords, ofInt_value]
  | jsr offset =>
    simp only [execute, Decoded.ofInstruction, fromPC_ofWords, ok_bind, call_ofWords]
    rfl
  | jsrr base =>
    simp only [execute, Decoded.ofInstruction, get_ofWords, ok_bind, call_ofWords]
    rfl
  | ld dr offset =>
    simp only [execute, Decoded.ofInstruction, fromPC_ofWords, ok_bind, loadFrom_ofWords h]
    rfl
  | ldi dr offset =>
    have h' : bus.Represents (m.read (m.fromPC offset)).2.bus := (m.bus_read _).symm ▸ h
    simp only [execute, Decoded.ofInstruction, fromPC_ofWords, ok_bind, read_ofWords h,
      ofInt_value, loadFrom_ofWords h']
    rfl
  | ldr dr base offset =>
    simp only [execute, Decoded.ofInstruction, fromBase_ofWords, ok_bind, loadFrom_ofWords h]
    rfl
  | lea dr offset =>
    simp only [execute, Decoded.ofInstruction, fromPC_ofWords, ok_bind, result_ofWords, ofInt_value]
    rfl
  | st sr offset =>
    simp only [execute, Decoded.ofInstruction, fromPC_ofWords, get_ofWords, ok_bind,
      write_ofWords h, ofInt_value]
    rfl
  | sti sr offset =>
    have h' : bus.Represents (m.read (m.fromPC offset)).2.bus := (m.bus_read _).symm ▸ h
    simp only [execute, Decoded.ofInstruction, fromPC_ofWords, ok_bind, read_ofWords h,
      ofInt_value, get_ofWords, write_ofWords h']
    rfl
  | str sr base offset =>
    simp only [execute, Decoded.ofInstruction, fromBase_ofWords, get_ofWords, ok_bind,
      write_ofWords h, ofInt_value]
    rfl
  | trap vector =>
    have hv : Word.ofInt (value vector) = vector.setWidth 16 := by
      rw [Word.ofInt, value, BitVec.ofInt_natCast, BitVec.ofNat_toNat]
    have h' : bus.Represents (m.set linkRegister m.pc).bus := h
    simp only [execute, Decoded.ofInstruction, link_ofWords, ok_bind, field, Option.elim_some,
      read_ofWords h', hv, pure_eq, jump_ofWords, ofInt_value]
    rfl
  | rti => rfl
  | reserved => rfl

theorem peek_pc_ofWords (m : LC3.Machine) (bus : Bus) :
    (ofWords m bus).peek (ofWords m bus).pc = .ok (value m.nextWord) := by
  have h : (ofWords m bus).peek _ = _ := peek_ofWords (value m.pc)
  rwa [ofInt_value] at h

/-- A step of the unbounded machine is a step, and it never fails. -/
theorem step_ofWords (h : bus.Represents m.bus) :
    (ofWords m bus).step = .ok (ofWords m.step bus) := by
  have hpc : Word.ofInt (value m.pc + 1) = m.pc + 1 := ofInt_sum m.pc 1
  have hfetch : { ofWords m bus with
      touched := false, ir := mask (value m.nextWord), pc := mask (value m.pc + 1) } =
      ofWords m.fetch bus := by
    rw [mask_value, mask_eq, hpc]
    rfl
  rw [step, peek_pc_ofWords, ok_bind, decode_value, ok_bind]
  exact (congrArg (execute · _) hfetch).trans (execute_ofWords (m := m.fetch) h _)

/-! ## Runs and actions -/

theorem makeReady_ofWords : (ofWords m bus).makeReady = .ok (ofWords m.makeReady bus) := by
  have hd : Word.ofInt 0xFE04 = displayStatus := by decide
  have hk : Word.ofInt 0xFE00 = keyboardStatus := by decide
  have hset (w : Word) : setReady (value w) = value (w ||| readyBit) := by
    rw [setReady_value, or_readyBit]
  rw [makeReady, peek_ofWords, ok_bind, poke_ofWords, ok_bind, hd, hset, ofInt_value,
    LC3.Machine.makeReady]
  split
  · rename_i hi
    have hi : m.console.input.isEmpty = true := hi
    simp only [if_pos hi]
    rfl
  · rename_i hi
    have hi : ¬ m.console.input.isEmpty = true := hi
    simp only [if_neg hi, peek_ofWords, ok_bind, poke_ofWords, hk, hset, ofInt_value]
    rfl

theorem advance_ofWords (budget : Nat) {r : Run} (hr : r.halted = false)
    (h : bus.Represents r.machine.bus) :
    (ofWords r.machine bus).advance budget = .ok (ofWords (r.advance budget).machine bus) := by
  -- On the budget: the run stops by itself when a `HALT` trap has executed.
  induction budget generalizing r with
  | zero => rfl
  | succ budget ih =>
    have hready : bus.Represents r.machine.makeReady.bus := h
    have hnext : bus.Represents r.next.machine.bus := (LC3.Machine.bus_step _).symm ▸ hready
    have hhalts : r.next.halted =
      decide (LC3.decode r.machine.makeReady.nextWord = .trap haltVector) := rfl
    rw [advance, makeReady_ofWords, ok_bind, peek_pc_ofWords, ok_bind, decode_value, ok_bind,
      step_ofWords hready, ok_bind, Run.advance, hr]
    change (if _ then _ else (ofWords r.next.machine bus).advance budget) =
      .ok (ofWords (r.next.advance budget).machine bus)
    by_cases hd : LC3.decode r.machine.makeReady.nextWord = .trap haltVector
    · rw [if_pos ((Decoded.halts_iff _).mpr hd),
        Run.advance_of_halted (hhalts.trans (decide_eq_true hd))]
      rfl
    · rw [if_neg (mt (Decoded.halts_iff _).mp hd)]
      exact ih (hhalts.trans (decide_eq_false hd)) hnext

theorem store_ofWords (m : LC3.Machine) (a : Int) (ws : List Int) :
    (ofWords m bus).store a ws = .ok (ofWords
      { m with memory := m.memory.load (Word.ofInt a) (ws.map Word.ofInt) } bus) := by
  induction ws generalizing m a with
  | nil => rfl
  | cons w ws ih =>
    have ha : Word.ofInt (a + 1) = Word.ofInt a + 1 := BitVec.ofInt_add a 1
    rw [store, poke_ofWords, ok_bind, ih, ha]
    rfl

theorem load_ofWords (p : Program) : (ofWords m bus).load p = .ok (ofWords (m.load p) bus) := by
  rw [load, store_ofWords, ok_bind, LC3.Machine.load]
  cases p.code.isEmpty with
  | true => rfl
  | false => simp only [jump, mask_eq, pure_eq, ofWords, Bool.false_eq_true, ↓reduceIte]

end

/-- The same machine, with integers for words. -/
def Represents (u : Machine) (m : LC3.Machine) : Prop :=
  ∃ bus : Bus, bus.Represents m.bus ∧ u = ofWords m bus

variable {u : Machine} {m : LC3.Machine}

theorem Represents.wordSized (h : u.Represents m) : u.WordSized := by
  obtain ⟨bus, -, rfl⟩ := h
  exact wordSized_ofWords m bus

theorem Represents.step (h : u.Represents m) : ∃ u', u.step = .ok u' ∧ u'.Represents m.step := by
  obtain ⟨bus, hb, rfl⟩ := h
  exact ⟨ofWords m.step bus, step_ofWords hb, bus, m.bus_step.symm ▸ hb, rfl⟩

theorem set_error {n : Int} (h : ¬ (0 ≤ n ∧ n < 8)) (v : Int) :
    u.set (some n) v = .error (.register n) := by
  have hi : index (some n) = .error (.register n) := if_neg h
  rw [set, hi]
  rfl

/-- An action only fails where it names a register that does not exist. -/
theorem Represents.act (h : u.Represents m) (a : Action) :
    (∃ u', u.act a = .ok u' ∧ u'.Represents (m.act a)) ∨
      ∃ n v, a = .setRegister n v ∧ ¬ (0 ≤ n ∧ n < 8) ∧
        u.act a = .error (.register n) ∧ m.act a = m := by
  obtain ⟨bus, hb, rfl⟩ := h
  cases a with
  | load p => exact .inl ⟨_, load_ofWords p, bus, hb, rfl⟩
  | push text => exact .inl ⟨_, rfl, bus, hb, rfl⟩
  | poke a v => exact .inl ⟨_, poke_ofWords a v, bus, hb, rfl⟩
  | write a v => exact .inl ⟨_, write_ofWords hb a v, bus, (m.bus_write _ _).symm ▸ hb, rfl⟩
  | setRegister n v =>
    by_cases hn : 0 ≤ n ∧ n < 8
    · have hv : value (BitVec.ofInt 3 n) = n := by
        rw [value, BitVec.toNat_ofInt]
        omega
      have hset : (ofWords m bus).set _ _ = _ := set_ofWords (BitVec.ofInt 3 n) v
      have hact : m.act (.setRegister n v) = m.set (BitVec.ofInt 3 n) (Word.ofInt v) := by
        rw [LC3.Machine.act, Registers.set?, Registers.index?, if_pos hn]
        rfl
      rw [hv] at hset
      exact .inl ⟨_, hset, bus, hact ▸ hb, congrArg (ofWords · bus) hact.symm⟩
    · have hact : m.act (.setRegister n v) = m := by
        obtain ⟨f, hf⟩ := m.registers.set?_eq_error hn (Word.ofInt v)
        rw [LC3.Machine.act, hf]
      exact .inr ⟨n, v, rfl, hn, set_error hn v, hact⟩
  | setPC v => exact .inl ⟨_, congrArg Except.ok (jump_ofWords v), bus, hb, rfl⟩
  | setIR v =>
    refine .inl ⟨_, rfl, bus, hb, ?_⟩
    rw [mask_eq]
    rfl
  | setPSR v =>
    refine .inl ⟨_, rfl, bus, hb, ?_⟩
    rw [mask_eq]
    rfl
  | resetRegisters => exact .inl ⟨_, rfl, bus, hb, rfl⟩
  | attachProbe a reader writer =>
    have hbus := hb.attach (n := a) rfl (reader.map .probe) (if writer then some .probe else none)
    rw [Option.map_map] at hbus
    exact .inl ⟨_, rfl, _, hbus, rfl⟩
  | attachDevices => exact .inl ⟨_, rfl, bus.attachDevices, hb.attachDevices, rfl⟩
  | step => exact .inl (Represents.step ⟨bus, hb, rfl⟩)
  | stepCopy =>
    have hc : Bus.empty.attachDevices.Represents m.copy.attachDevices.bus :=
      Bus.Represents.attachDevices (m := m.copy) .empty
    exact .inl (Represents.step ⟨_, hc, rfl⟩)
  | run budget =>
    have hs : bus.attachDevices.Represents (Run.start m).machine.bus := hb.attachDevices
    exact .inl ⟨_, advance_ofWords budget (r := Run.start m) rfl hs, _,
      (Run.bus_advance budget (Run.start m)).symm ▸ hs, rfl⟩

theorem represents_powerOn : powerOn.Represents LC3.Machine.powerOn := by
  have hcells : values Memory.blank.cells = List.replicate 65536 0 := by
    rw [values, Memory.blank, Vector.toList_replicate, List.map_replicate]
    rfl
  refine ⟨.empty, .empty, ?_⟩
  unfold powerOn ofWords LC3.Machine.powerOn
  rw [hcells]
  rfl

theorem Represents.actAll (h : u.Represents m) (actions : List Action) :
    (u.actAll actions).Represents (m.actAll actions) := by
  induction actions generalizing u m with
  | nil => exact h
  | cons a actions ih =>
    refine ih (u := (u.act a).toOption.getD u) ?_
    obtain ⟨u', hu, hr⟩ | ⟨n, v, -, -, hu, hm⟩ := h.act a
    · rw [hu]
      exact hr
    · rw [hu, hm]
      exact h

/-- The word range is all that a state needs to be one of a machine of words. -/
theorem WordSized.exists_represents (h : u.WordSized) : ∃ m, u.Represents m := by
  obtain ⟨cells, hcells⟩ := exists_values h.length_cells h.cells
  obtain ⟨general, hgeneral⟩ := exists_values h.length_general h.general
  obtain ⟨bus, hbus⟩ := u.bus.exists_represents
  refine ⟨{
    memory := ⟨cells⟩
    registers := ⟨general, Word.ofInt u.pc, Word.ofInt u.ir, Word.ofInt u.psr⟩
    symbols := u.symbols
    console := u.console
    depth := u.depth
    bus := bus
    touched := u.touched
    accesses := List.replicate u.noted (.read 0) }, u.bus, hbus, ?_⟩
  unfold ofWords
  simp only [hcells, hgeneral, value_ofInt h.pc, value_ofInt h.ir, value_ofInt h.psr,
    List.length_replicate]

/-- Whatever is done to a new machine, with whatever integers, every cell and register is a word,
and the machine is the one of words. In every state in which they are words, a step does not fail,
nor does any action but setting a register that does not exist, and they are words afterwards. -/
theorem wordSized_actAll :
    (∀ actions, (powerOn.actAll actions).WordSized ∧
      (powerOn.actAll actions).Represents (LC3.Machine.powerOn.actAll actions)) ∧
    ∀ u : Machine, u.WordSized →
      (∃ u', u.step = .ok u' ∧ u'.WordSized) ∧
      ∀ a, (∃ u', u.act a = .ok u' ∧ u'.WordSized) ∨
        ∃ n v, a = .setRegister n v ∧ ¬ (0 ≤ n ∧ n < 8) ∧ u.act a = .error (.register n) := by
  refine ⟨fun actions => ?_, fun u hu => ?_⟩
  · have h := represents_powerOn.actAll actions
    exact ⟨h.wordSized, h⟩
  · obtain ⟨m, h⟩ := hu.exists_represents
    refine ⟨?_, fun a => ?_⟩
    · obtain ⟨u', hu', hr⟩ := h.step
      exact ⟨u', hu', hr.wordSized⟩
    · obtain ⟨u', hu', hr⟩ | ⟨n, v, ha, hn, hu', -⟩ := h.act a
      · exact .inl ⟨u', hu', hr.wordSized⟩
      · exact .inr ⟨n, v, ha, hn, hu'⟩

/-- An `LDI` through a probe whose answer is no word, fetched from the last address. -/
theorem wordSized_actAll_probe :
    let u := powerOn.actAll
      [.attachProbe (-1) (some fun _ => -0x20000) true, .poke 0xFFFF (-0x5801), .setPC (-1)]
    u.WordSized ∧ ∃ u', u.step = .ok u' ∧ u'.WordSized := by
  intro u
  have hu : u.WordSized := (wordSized_actAll.1 _).1
  exact ⟨hu, (wordSized_actAll.2 u hu).1⟩

end Machine

end LC3.Unbounded
