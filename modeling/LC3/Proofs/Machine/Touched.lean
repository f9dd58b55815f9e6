import LC3.Proofs.Machine.Console

/-!
# Touching a device

A step is marked as touching a device just if its instruction accesses one of the four device
registers as data: the fetch does not count, wherever the program counter is, nor do addresses that
are computed without an access. `Machine.Accessed` follows the mark, the console and the cells of
the devices along a list of accesses, one after another, and a step makes those of its instruction
(`Machine.accessed_step`). A step that is not marked has left the devices as they were.
-/

namespace LC3

/-- A register of the keyboard or of the display. -/
def Word.IsDevice (a : Word) : Prop :=
  a ∈ [keyboardStatus, keyboardData, displayStatus, displayData]

namespace Machine

/-- The addresses that the next instruction accesses as data, in order. -/
def dataAddresses (m : Machine) : List Word :=
  m.loads ++ m.stores?.toList.map Prod.fst

/-- From `m` to `m'` there were accesses at these addresses. They set the mark just if one was at a
device; without it the console and the devices' cells are as before. -/
structure Accessed (m m' : Machine) (as : List Word) : Prop where
  touched : m'.touched = true ↔ m.touched = true ∨ ∃ a ∈ as, a.IsDevice
  console : m'.touched = false → m'.console = m.console
  cells : m'.touched = false → ∀ a : Word, a.IsDevice → m'.memory.peek a = m.memory.peek a

variable {m m' m'' : Machine}

/-- An instruction may change the registers besides. -/
theorem Accessed.of_same (ht : m'.touched = m.touched) (hc : m'.console = m.console)
    (hm : m'.memory = m.memory) : m.Accessed m' [] := by
  refine ⟨?_, fun _ => hc, fun _ _ _ => by rw [hm]⟩
  rw [ht]
  simp

/-- Of an access to a device nothing but the mark has to be known. -/
theorem Accessed.of_touched {a : Word} (ha : a.IsDevice) (ht : m'.touched = true) :
    m.Accessed m' [a] := by
  have hn : m'.touched ≠ false := by
    rw [ht]
    exact Bool.noConfusion
  refine ⟨iff_of_true ht (.inr ⟨a, List.mem_singleton_self a, ha⟩), ?_, ?_⟩
  · exact fun h => absurd h hn
  · exact fun h => absurd h hn

theorem Accessed.trans {as bs : List Word} (h : m.Accessed m' as) (h' : m'.Accessed m'' bs) :
    m.Accessed m'' (as ++ bs) := by
  -- The mark is never taken back within a step.
  have hback (hn : m''.touched = false) : m'.touched = false := by
    cases ht : m'.touched with
    | false => rfl
    | true =>
      rw [h'.touched.mpr (.inl ht)] at hn
      cases hn
  refine ⟨?_, fun hn => ?_, fun hn a ha => ?_⟩
  · rw [h'.touched, h.touched, or_assoc]
    simp only [List.mem_append, or_and_right, exists_or]
  · exact (h'.console hn).trans (h.console (hback hn))
  · exact (h'.cells hn a ha).trans (h.cells (hback hn) a ha)

/-! ## One access -/

theorem reader?_eq_none_iff (a : Word) : Bus.devices.reader? a = none ↔ ¬a.IsDevice := by
  rw [reader?_devices, Word.IsDevice]
  split
  · simp_all
  · split <;> simp_all

theorem writer?_eq_none_iff (a : Word) : Bus.devices.writer? a = none ↔ ¬a.IsDevice := by
  rw [writer?_devices, Word.IsDevice]
  split
  · simp_all
  · split <;> simp_all

theorem touched_deliver (m : Machine) : m.deliver.touched = m.touched := by
  unfold deliver
  cases m.console.input <;> rfl

theorem accessed_read (hb : m.bus = .devices) (a : Word) : m.Accessed (m.read a).2 [a] := by
  by_cases ha : a.IsDevice
  · refine .of_touched ha ?_
    unfold read
    rw [hb]
    cases h : Bus.devices.reader? a with
    | none => exact absurd ha ((reader?_eq_none_iff a).mp h)
    | some reader =>
      cases reader with
      | cell | probe => rfl
      | keyboard => exact touched_deliver _
  · have hm : (m.read a).2 = m := by
      unfold read
      rw [hb, (reader?_eq_none_iff a).mpr ha]
    rw [hm]
    refine ⟨?_, fun _ => rfl, fun _ _ _ => rfl⟩
    simp [ha]

theorem accessed_write (hb : m.bus = .devices) (a v : Word) : m.Accessed (m.write a v) [a] := by
  by_cases ha : a.IsDevice
  · refine .of_touched ha ?_
    unfold write
    dsimp only
    rw [hb]
    cases h : Bus.devices.writer? a with
    | none => exact absurd ha ((writer?_eq_none_iff a).mp h)
    | some writer => cases writer <;> rfl
  · have hm : m.write a v = { m with memory := m.memory.poke a v } := by
      unfold write
      dsimp only
      rw [hb, (writer?_eq_none_iff a).mpr ha]
    rw [hm]
    refine ⟨?_, fun _ => rfl, fun _ b hdev => ?_⟩
    · simp [ha]
    · have hne : b ≠ a := by
        rintro rfl
        exact ha hdev
      show (m.memory.poke a v).peek b = m.memory.peek b
      rw [Memory.peek_poke, if_neg hne]

/-! ## Steps -/

theorem accessed_loadFrom (hb : m.bus = .devices) (dr : Reg) (a : Word) :
    m.Accessed (m.loadFrom dr a) [a] :=
  (accessed_read hb a).trans (.of_same rfl rfl rfl)

/-- A step accesses what its instruction says. -/
theorem accessed_step (hb : m.bus = .devices) : m.fetch.Accessed m.step m.dataAddresses := by
  have hf : m.fetch.bus = .devices := hb
  have hread (a : Word) : (m.fetch.read a).2.bus = .devices := (m.fetch.bus_read a).trans hf
  unfold step dataAddresses loads stores?
  cases decode m.nextWord with
  | add | and | not | lea | jsr | jsrr | rti | reserved => exact .of_same rfl rfl rfl
  | br n z p offset =>
    rw [execute]
    split <;> exact .of_same rfl rfl rfl
  | jmp base =>
    rw [execute]
    split <;> exact .of_same rfl rfl rfl
  | ld dr offset => exact accessed_loadFrom hf dr _
  | ldr dr base offset => exact accessed_loadFrom hf dr _
  | ldi dr offset => exact (accessed_read hf _).trans (accessed_loadFrom (hread _) dr _)
  | st sr offset => exact accessed_write hf _ _
  | str sr base offset => exact accessed_write hf _ _
  | sti sr offset => exact (accessed_read hf _).trans (accessed_write (hread _) _ _)
  | trap vector =>
    have hlink : m.fetch.Accessed (m.fetch.set linkRegister m.fetch.pc) [] := .of_same rfl rfl rfl
    have htarget := accessed_read (m := m.fetch.set linkRegister m.fetch.pc) hf
      (vector.setWidth 16)
    exact (hlink.trans htarget).trans (.of_same rfl rfl rfl)

/-- With the keyboard and the display alone attached, a step touches a device just if its
instruction accesses one of their registers as data; if it touches none, what waits, what was
printed and the four registers are as before. -/
theorem touched_step_iff (hb : m.bus = .devices) :
    (m.step.touched = true ↔
      ∃ a ∈ m.dataAddresses, a = 0xFE00 ∨ a = 0xFE02 ∨ a = 0xFE04 ∨ a = 0xFE06) ∧
    (m.step.touched = false →
      m.step.console = m.console ∧
        ∀ a ∈ [0xFE00, 0xFE02, 0xFE04, 0xFE06], m.step.memory.peek a = m.memory.peek a) := by
  have hstep := accessed_step hb
  have hfetch : m.fetch.touched = false := rfl
  refine ⟨?_, fun hn => ⟨hstep.console hn, hstep.cells hn⟩⟩
  rw [hstep.touched, hfetch]
  simp only [Bool.false_eq_true, false_or, Word.IsDevice, List.mem_cons, List.not_mem_nil, or_false]
  rfl

/-- A program in the device page, whose first word stands at the keyboard's status and loads from
the display's status. -/
theorem touched_step_iff_devicePage :
    let m := powerOn.attachDevices.load ⟨0xFE00, [0x2003], ∅⟩
    m.bus = .devices ∧ m.pc = 0xFE00 ∧ m.step.touched = true := by
  intro m
  have hword : m.nextWord = 0x2003 := by
    show (Memory.blank.poke 0xFE00 0x2003).peek 0xFE00 = 0x2003
    rw [Memory.peek_poke, if_pos rfl]
  have haccess : m.dataAddresses = [0xFE04] := by
    rw [dataAddresses, loads, stores?, hword]
    rfl
  refine ⟨rfl, rfl, (touched_step_iff (m := m) rfl).1.mpr ?_⟩
  rw [haccess]
  decide

end Machine

end LC3
