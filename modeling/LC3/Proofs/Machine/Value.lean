import LC3.Proofs.Machine.Handshake
import LC3.Proofs.Machine.Objects

/-!
# Objects as a value

`Heap.value h r` is the machine `r` as `LC3.Machine` has it, and `h.assign r m` is the heap in which
the objects of `r` hold what `m` says. Where the devices are the machine's own, stepping is nothing
else than assigning: `step_assign` takes `Stepper.step` to `Machine.step`, instruction by
instruction.
-/

namespace LC3.Objects

open Function (update)

/-! ## Values -/

def ReadHandler.kind : ReadHandler → Reader
  | cell _ => .cell
  | keyboard _ _ => .keyboard

def WriteHandler.kind : WriteHandler → Writer
  | nothing => .nothing
  | display _ _ => .display

namespace Heap

variable (h : Heap) (r : Ref)

/-- The handlers of a machine, with the objects that they work on. -/
def handlers : (Word → Option ReadHandler) × (Word → Option WriteHandler) :=
  let o := h.memories (h.machines r).memory
  (h.readers o.readers, h.writers o.writers)

/-- The handlers of a machine, without regard to the objects that they work on. -/
def bus : Bus where
  reader? a := ((h.handlers r).1 a).map ReadHandler.kind
  writer? a := ((h.handlers r).2 a).map WriteHandler.kind

/-- A machine as a value. -/
def value : Machine :=
  let o := h.machines r
  { memory := h.cells o.memory
    registers := h.file o.registers
    symbols := h.symbols o.symbols
    console := ⟨h.input o.console, h.output o.console⟩
    depth := o.depth
    bus := h.bus r
    touched := (h.memories o.memory).touched
    accesses := [] }

/-- Changes the parts of a machine in place, but for its handlers. -/
def assign (m : Machine) : Heap :=
  let o := h.machines r
  let memory := h.memories o.memory
  let registers := h.registers o.registers
  let console := h.consoles o.console
  { h with
    words := update h.words memory.words m.memory
    memories := update h.memories o.memory { memory with touched := m.touched }
    general := update h.general registers.general m.registers.general
    registers := update h.registers o.registers
      { registers with pc := m.registers.pc, ir := m.registers.ir, psr := m.registers.psr }
    symbols := update h.symbols o.symbols m.symbols
    inputs := update h.inputs console.input m.console.input
    outputs := update h.outputs console.output m.console.output
    machines := update h.machines r { o with depth := m.depth } }

/-- The stepper of a machine. -/
def stepper : Stepper :=
  let o := h.machines r
  ⟨r, o.memory, o.registers⟩

@[simp] theorem stepper_machine : (h.stepper r).machine = r := rfl

@[simp] theorem stepper_memory : (h.stepper r).memory = (h.machines r).memory := rfl

@[simp] theorem stepper_registers : (h.stepper r).registers = (h.machines r).registers := rfl

theorem assign_value : h.assign r (h.value r) = h := by
  simp [assign, value, cells, file, input, output]

variable (m : Machine)

theorem handlers_assign : (h.assign r m).handlers r = h.handlers r := by
  simp [assign, handlers]

theorem value_assign : (h.assign r m).value r = { m with bus := h.bus r, accesses := [] } := by
  simp [assign, value, bus, handlers, cells, file, input, output]

/-! ## Parts -/

@[simp] theorem cells_assign : (h.assign r m).cells (h.machines r).memory = m.memory := by
  simp [assign, cells]

@[simp] theorem setCells_assign (x : Memory) :
    (h.assign r m).setCells (h.machines r).memory x = h.assign r { m with memory := x } := by
  simp [assign, setCells]

@[simp] theorem touched_assign :
    ((h.assign r m).memories (h.machines r).memory).touched = m.touched := by
  simp [assign]

@[simp] theorem setTouched_assign (b : Bool) :
    (h.assign r m).setTouched (h.machines r).memory b = h.assign r { m with touched := b } := by
  simp [assign, setTouched]

@[simp] theorem file_assign : (h.assign r m).file (h.machines r).registers = m.registers := by
  simp [assign, file]

@[simp] theorem setFile_assign (x : Registers) :
    (h.assign r m).setFile (h.machines r).registers x = h.assign r { m with registers := x } := by
  simp [assign, setFile]

@[simp] theorem input_assign : (h.assign r m).input (h.machines r).console = m.console.input := by
  simp [assign, input]

@[simp] theorem setInput_assign (x : List Char) :
    (h.assign r m).setInput (h.machines r).console x =
      h.assign r { m with console := { m.console with input := x } } := by
  simp [assign, setInput]

@[simp] theorem output_assign :
    (h.assign r m).output (h.machines r).console = m.console.output := by
  simp [assign, output]

@[simp] theorem setOutput_assign (x : String) :
    (h.assign r m).setOutput (h.machines r).console x =
      h.assign r { m with console := { m.console with output := x } } := by
  simp [assign, setOutput]

theorem readers_assign :
    (h.assign r m).readers ((h.assign r m).memories (h.machines r).memory).readers =
      (h.handlers r).1 := by
  simp [assign, handlers]

theorem writers_assign :
    (h.assign r m).writers ((h.assign r m).memories (h.machines r).memory).writers =
      (h.handlers r).2 := by
  simp [assign, handlers]

end Heap

/-! ## Devices -/

/-- The handler works on these objects. -/
def ReadHandler.WorksOn (console memory : Ref) : ReadHandler → Prop
  | cell own => own = memory
  | keyboard other own => other = console ∧ own = memory

def WriteHandler.WorksOn (console memory : Ref) : WriteHandler → Prop
  | nothing => True
  | display other own => other = console ∧ own = memory

namespace Heap

/-- The handlers of a machine work on its own console and memory. -/
structure OwnsHandlers (h : Heap) (r : Ref) : Prop where
  reader : ∀ a handler, (h.handlers r).1 a = some handler →
    handler.WorksOn (h.machines r).console (h.machines r).memory
  writer : ∀ a handler, (h.handlers r).2 a = some handler →
    handler.WorksOn (h.machines r).console (h.machines r).memory

variable (h : Heap) (r : Ref) (m : Machine)

theorem deliver_assign :
    (h.assign r m).deliver (h.machines r).console (h.machines r).memory =
      h.assign r m.deliver := by
  simp only [deliver, Machine.deliver, cells_assign, setCells_assign, input_assign]
  cases m.console.input with
  | nil => rfl
  | cons c rest => simp only [setInput_assign, cells_assign, setCells_assign]

theorem print_assign (v : Word) :
    (h.assign r m).print (h.machines r).console (h.machines r).memory v =
      h.assign r (m.print v) := by
  simp only [print, Machine.print, cells_assign, setCells_assign, output_assign, setOutput_assign]
  rfl

variable {h r m}

theorem read_assign (ho : h.OwnsHandlers r) (hb : m.bus = h.bus r) (a : Word) :
    (h.assign r m).read (h.machines r).memory a =
      ((m.read a).1, h.assign r (m.read a).2) := by
  have hreader : m.bus.reader? a = ((h.handlers r).1 a).map ReadHandler.kind := by
    rw [hb]
    rfl
  unfold read Machine.read
  rw [readers_assign, hreader, cells_assign]
  cases hh : (h.handlers r).1 a with
  | none => rfl
  | some handler =>
    have hown := ho.reader a handler hh
    simp only [Option.map_some, setTouched_assign]
    cases handler with
    | cell own =>
      obtain rfl := hown
      simp only [ReadHandler.kind, cells_assign]
    | keyboard console own =>
      obtain ⟨rfl, rfl⟩ := hown
      simp only [ReadHandler.kind, deliver_assign, cells_assign]

theorem write_assign (ho : h.OwnsHandlers r) (hb : m.bus = h.bus r) (a v : Word) :
    (h.assign r m).write (h.machines r).memory a v = h.assign r (m.write a v) := by
  have hwriter : m.bus.writer? a = ((h.handlers r).2 a).map WriteHandler.kind := by
    rw [hb]
    rfl
  unfold write Machine.write
  simp only [cells_assign, setCells_assign, writers_assign]
  rw [hwriter]
  cases hh : (h.handlers r).2 a with
  | none => rfl
  | some handler =>
    have hown := ho.writer a handler hh
    simp only [Option.map_some, setTouched_assign]
    cases handler with
    | nothing => rfl
    | display console own =>
      obtain ⟨rfl, rfl⟩ := hown
      simp only [WriteHandler.kind, print_assign]

end Heap

/-! ## Execution -/

namespace Stepper

open Heap

section

variable (h : Heap) (r : Ref) (m : Machine)

@[simp] theorem get_assign (n : Reg) : (h.stepper r).get (h.assign r m) n = m.get n := by
  simp [get, Machine.get]

@[simp] theorem pc_assign : (h.stepper r).pc (h.assign r m) = m.pc := by
  simp [pc, Machine.pc]

@[simp] theorem set_assign (n : Reg) (w : Word) :
    (h.stepper r).set (h.assign r m) n w = h.assign r (m.set n w) := by
  simp [set, Machine.set]

@[simp] theorem jump_assign (a : Word) :
    (h.stepper r).jump (h.assign r m) a = h.assign r (m.jump a) := by
  simp [jump, Machine.jump]

@[simp] theorem result_assign (dr : Reg) (w : Word) :
    (h.stepper r).result (h.assign r m) dr w = h.assign r (m.result dr w) := by
  simp [result, Machine.result]

@[simp] theorem sourceValue_assign (s : Source) :
    (h.stepper r).sourceValue (h.assign r m) s = m.sourceValue s := by
  cases s with
  | register n => exact get_assign h r m n
  | immediate v => rfl

@[simp] theorem fromPC_assign {n : Nat} (offset : BitVec n) :
    (h.stepper r).fromPC (h.assign r m) offset = m.fromPC offset := by
  simp [fromPC, Machine.fromPC]

@[simp] theorem fromBase_assign (base : Reg) (offset : BitVec 6) :
    (h.stepper r).fromBase (h.assign r m) base offset = m.fromBase base offset := by
  simp [fromBase, Machine.fromBase]

@[simp] theorem addDepth_assign (n : Int) :
    (h.stepper r).addDepth (h.assign r m) n = h.assign r { m with depth := m.depth + n } := by
  simp [addDepth, Heap.assign]

@[simp] theorem call_assign (a : Word) :
    (h.stepper r).call (h.assign r m) a = h.assign r (m.call a) := by
  simp [call, Machine.call]

end

variable {h : Heap} {r : Ref} {m : Machine}

theorem loadFrom_assign (ho : h.OwnsHandlers r) (hb : m.bus = h.bus r) (dr : Reg) (a : Word) :
    (h.stepper r).loadFrom (h.assign r m) dr a = h.assign r (m.loadFrom dr a) := by
  simp only [loadFrom, stepper_memory, read_assign ho hb, result_assign]
  rfl

theorem execute_assign (ho : h.OwnsHandlers r) (hb : m.bus = h.bus r) (i : Instruction) :
    (h.stepper r).execute (h.assign r m) i = h.assign r (m.execute i) := by
  have hpointer (a : Word) : (m.read a).2.bus = h.bus r := (m.bus_read a).trans hb
  cases i with
  | add | and | not | jsr | jsrr | lea => simp [execute, Machine.execute]
  | br n z p offset =>
    simp only [execute, Machine.execute, stepper_registers, file_assign, fromPC_assign, jump_assign]
    split <;> rfl
  | jmp base =>
    simp only [execute, Machine.execute, get_assign, jump_assign, addDepth_assign]
    split <;> rfl
  | ld dr offset => simp only [execute, Machine.execute, fromPC_assign, loadFrom_assign ho hb]
  | ldi dr offset =>
    simp only [execute, Machine.execute, fromPC_assign, stepper_memory, read_assign ho hb,
      loadFrom_assign ho (hpointer _)]
  | ldr dr base offset =>
    simp only [execute, Machine.execute, fromBase_assign, loadFrom_assign ho hb]
  | st sr offset =>
    simp only [execute, Machine.execute, fromPC_assign, get_assign, stepper_memory,
      write_assign ho hb]
  | sti sr offset =>
    simp only [execute, Machine.execute, fromPC_assign, stepper_memory, read_assign ho hb,
      get_assign, write_assign ho (hpointer _)]
  | str sr base offset =>
    simp only [execute, Machine.execute, fromBase_assign, get_assign, stepper_memory,
      write_assign ho hb]
  | trap vector =>
    have hlink : (m.set linkRegister m.pc).bus = h.bus r := hb
    simp only [execute, Machine.execute, pc_assign, set_assign, stepper_memory,
      read_assign ho hlink, jump_assign]
  | rti | reserved => rfl

theorem step_assign (ho : h.OwnsHandlers r) (hb : m.bus = h.bus r) :
    (h.stepper r).step (h.assign r m) = (m.step.touched, h.assign r m.step) := by
  have hfetch : m.fetch.bus = h.bus r := hb
  have hexecute : (h.stepper r).execute (h.assign r m.fetch) (decode m.nextWord) =
      h.assign r m.step := execute_assign ho hfetch _
  simp only [step, stepper_memory, stepper_registers, setTouched_assign, cells_assign, file_assign,
    setFile_assign, pc_assign]
  change ((((h.stepper r).execute (h.assign r m.fetch) (decode m.nextWord)).memories _).touched,
    (h.stepper r).execute (h.assign r m.fetch) (decode m.nextWord)) = _
  rw [hexecute, touched_assign]

/-- Stepping a machine in place assigns its next value. -/
theorem step_eq (ho : h.OwnsHandlers r) :
    (h.stepper r).step h = ((h.value r).step.touched, h.assign r (h.value r).step) := by
  have hstep := step_assign (m := h.value r) ho rfl
  rwa [h.assign_value] at hstep

end Stepper

namespace Heap

/-! ## Attaching devices -/

section

variable (h : Heap) (r : Ref) {memory : Ref}

theorem handlers_register (hm : memory = (h.machines r).memory) (a : Word) (reader : ReadHandler)
    (writer : WriteHandler) : (h.register memory a reader writer).handlers r =
      (update (h.handlers r).1 a (some reader), update (h.handlers r).2 a (some writer)) := by
  subst hm
  simp [register, handlers]

theorem value_register (hm : memory = (h.machines r).memory) (a : Word) (reader : ReadHandler)
    (writer : WriteHandler) : (h.register memory a reader writer).value r =
      { h.value r with
        bus := (h.value r).bus.attach a (some reader.kind) (some writer.kind) } := by
  have hbus : (h.register memory a reader writer).bus r =
      (h.bus r).attach a (some reader.kind) (some writer.kind) := by
    unfold bus Bus.attach
    rw [handlers_register h r hm]
    congr 1 <;>
    · funext b
      by_cases hb : b = a <;> simp [hb]
  subst hm
  exact congrArg (fun u => { h.value r with bus := u }) hbus

theorem value_makeStepper : (h.makeStepper r).2.value r = (h.value r).attachDevices := by
  simp only [makeStepper, attachDevices]
  rw [value_register, value_register, value_register, value_register] <;> rfl

theorem handlers_makeStepper :
    let o := h.machines r
    (h.makeStepper r).2.handlers r =
      (update (update (update (update (h.handlers r).1
        keyboardStatus (some (.cell o.memory)))
        keyboardData (some (.keyboard o.console o.memory)))
        displayStatus (some (.cell o.memory)))
        displayData (some (.cell o.memory)),
      update (update (update (update (h.handlers r).2
        keyboardStatus (some .nothing))
        keyboardData (some .nothing))
        displayStatus (some .nothing))
        displayData (some (.display o.console o.memory))) := by
  simp only [makeStepper, attachDevices]
  rw [handlers_register, handlers_register, handlers_register, handlers_register] <;> rfl

/-- Where a table has no entries elsewhere, every entry is one of those put in for the devices. -/
theorem of_attached {α : Type} {f : Word → Option α} {P : α → Prop}
    (hf : ∀ a, a ∉ [keyboardStatus, keyboardData, displayStatus, displayData] → f a = none)
    {w x y z : α} (hw : P w) (hx : P x) (hy : P y) (hz : P z) (a : Word) (v : α)
    (h : update (update (update (update f keyboardStatus (some w)) keyboardData (some x))
      displayStatus (some y)) displayData (some z) a = some v) : P v := by
  simp only [Function.update_apply] at h
  split_ifs at h with h4 h3 h2 h1
  · exact Option.some.inj h ▸ hz
  · exact Option.some.inj h ▸ hy
  · exact Option.some.inj h ▸ hx
  · exact Option.some.inj h ▸ hw
  · rw [hf a (by simp [h1, h2, h3, h4])] at h
    cases h

/-- Without other handlers, a new stepper leaves none but those of the machine itself. -/
theorem ownsHandlers_makeStepper (hd : (h.bus r).OnlyDevices) :
    (h.makeStepper r).2.OwnsHandlers r := by
  have hreaders (a : Word) (ha : a ∉ [keyboardStatus, keyboardData, displayStatus, displayData]) :
      (h.handlers r).1 a = none := Option.map_eq_none_iff.mp (hd a ha).1
  have hwriters (a : Word) (ha : a ∉ [keyboardStatus, keyboardData, displayStatus, displayData]) :
      (h.handlers r).2 a = none := Option.map_eq_none_iff.mp (hd a ha).2
  constructor <;> rw [handlers_makeStepper]
  · exact of_attached hreaders rfl ⟨rfl, rfl⟩ rfl rfl
  · exact of_attached hwriters trivial trivial trivial ⟨rfl, rfl⟩

/-! ## Copies -/

theorem stepCopy_eq :
    let copied := ((h.copy r).2.makeStepper h.next).2
    h.stepCopy r = (h.next, (copied.stepper h.next).step copied) := rfl

theorem value_copy : (h.copy r).2.value h.next = (h.value r).copy := by
  simp [copy, copyMemory, copyRegisters, copySymbols, copyConsole, value, cells, file, input, output,
    bus, handlers, Machine.copy, Bus.empty]

end

end Heap

end LC3.Objects
