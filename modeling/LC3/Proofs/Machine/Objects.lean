import Mathlib.Logic.Function.Basic
import LC3.Machine.Run

/-!
# Machines made of objects

`LC3.Machine` is a value, so that a copy of it has nothing to share. Here a machine is what it is made
of: lists, queues and tables that refer to each other and are changed in place, by whoever holds
them. A stepper holds the memory and the registers of its machine, and the devices that it registers
hold memory and console. A copy is made object by object, and what was not copied would be shared.

`LC3.Proofs.Machine.Value` shows that a step of this machine is one of `LC3.Machine`, and
`LC3.Proofs.Machine.Snapshot` that copies are independent.
-/

namespace LC3.Objects

open Function (update)

/-- The number of an object among those of its kind. -/
abbrev Ref := Nat

/-! ## Objects -/

/-- What answers when an instruction reads a cell, with the objects that it works on. -/
inductive ReadHandler where
  | cell (memory : Ref)
  | keyboard (console memory : Ref)

/-- What happens, beside the store itself, when an instruction writes a cell. -/
inductive WriteHandler where
  | nothing
  | display (console memory : Ref)

structure MemoryObject where
  words : Ref
  readers : Ref
  writers : Ref
  touched : Bool

structure RegistersObject where
  general : Ref
  pc : Word
  ir : Word
  psr : Word

structure ConsoleObject where
  input : Ref
  output : Ref

structure MachineObject where
  memory : Ref
  registers : Ref
  symbols : Ref
  console : Ref
  depth : Int

/-- All objects, kind by kind. -/
structure Heap where
  words : Ref → Memory
  readers : Ref → Word → Option ReadHandler
  writers : Ref → Word → Option WriteHandler
  memories : Ref → MemoryObject
  general : Ref → Vector Word 8
  registers : Ref → RegistersObject
  symbols : Ref → SymbolTable
  inputs : Ref → List Char
  outputs : Ref → String
  consoles : Ref → ConsoleObject
  machines : Ref → MachineObject
  /-- No object has this number or a greater one. -/
  next : Ref

/-- What steps a machine: it keeps its memory and registers at hand. -/
structure Stepper where
  machine : Ref
  memory : Ref
  registers : Ref
  deriving DecidableEq

namespace Heap

variable (h : Heap)

/-! ## Memory and registers -/

def cells (memory : Ref) : Memory :=
  h.words (h.memories memory).words

def setCells (memory : Ref) (x : Memory) : Heap :=
  { h with words := update h.words (h.memories memory).words x }

def setTouched (memory : Ref) (touched : Bool) : Heap :=
  { h with memories := update h.memories memory { h.memories memory with touched } }

def file (registers : Ref) : Registers :=
  let o := h.registers registers
  ⟨h.general o.general, o.pc, o.ir, o.psr⟩

def setFile (registers : Ref) (x : Registers) : Heap :=
  let o := h.registers registers
  { h with
    general := update h.general o.general x.general
    registers := update h.registers registers { o with pc := x.pc, ir := x.ir, psr := x.psr } }

/-! ## The console -/

def input (console : Ref) : List Char :=
  h.inputs (h.consoles console).input

def setInput (console : Ref) (input : List Char) : Heap :=
  { h with inputs := update h.inputs (h.consoles console).input input }

def output (console : Ref) : String :=
  h.outputs (h.consoles console).output

def setOutput (console : Ref) (output : String) : Heap :=
  { h with outputs := update h.outputs (h.consoles console).output output }

/-! ## Devices -/

/-- Delivers the next character of the keyboard's console to the keyboard's memory. -/
def deliver (console memory : Ref) : Heap :=
  let h := h.setCells memory ((h.cells memory).clearReady keyboardStatus)
  match h.input console with
  | [] => h
  | c :: rest =>
    let h := h.setInput console rest
    let delivered := (h.cells memory).poke keyboardData (lowByte c)
    h.setCells memory (if rest.isEmpty then delivered else delivered.setReady keyboardStatus)

/-- Prints on the display's console; the display is busy from then on. -/
def print (console memory : Ref) (v : Word) : Heap :=
  let h := h.setCells memory ((h.cells memory).clearReady displayStatus)
  h.setOutput console ((h.output console).push (Char.ofNat (v.toNat % 256)))

/-- Reads a word as an instruction does. -/
def read (memory : Ref) (a : Word) : Word × Heap :=
  match h.readers (h.memories memory).readers a with
  | none => ((h.cells memory).peek a, h)
  | some handler =>
    let h := h.setTouched memory true
    match handler with
    | .cell own => ((h.cells own).peek a, h)
    | .keyboard console own =>
      let h := h.deliver console own
      ((h.cells own).peek keyboardData, h)

/-- Writes a word as an instruction does. -/
def write (memory : Ref) (a v : Word) : Heap :=
  let h := h.setCells memory ((h.cells memory).poke a v)
  match h.writers (h.memories memory).writers a with
  | none => h
  | some handler =>
    let h := h.setTouched memory true
    match handler with
    | .nothing => h
    | .display console own => h.print console own v

/-- Registers the handlers of an address in a memory, in place of those before. -/
def register (memory : Ref) (a : Word) (reader : ReadHandler) (writer : WriteHandler) : Heap :=
  let o := h.memories memory
  { h with
    readers := update h.readers o.readers (update (h.readers o.readers) a (some reader))
    writers := update h.writers o.writers (update (h.writers o.writers) a (some writer)) }

/-- Registers a keyboard and a display for this console in a memory. -/
def attachDevices (console memory : Ref) : Heap :=
  let h := h.register memory keyboardStatus (.cell memory) .nothing
  let h := h.register memory keyboardData (.keyboard console memory) .nothing
  let h := h.register memory displayStatus (.cell memory) .nothing
  h.register memory displayData (.cell memory) (.display console memory)

/-- A new stepper of a machine, with devices of its own. -/
def makeStepper (r : Ref) : Stepper × Heap :=
  let o := h.machines r
  (⟨r, o.memory, o.registers⟩, h.attachDevices o.console o.memory)

/-! ## Copies

The parts of a copy all get the number `n`. -/

/-- Copies the words. Handlers belong to a machine and are not copied. -/
def copyMemory (memory n : Ref) : Heap :=
  { h with
    words := update h.words n (h.words (h.memories memory).words)
    readers := update h.readers n fun _ => none
    writers := update h.writers n fun _ => none
    memories := update h.memories n ⟨n, n, n, false⟩ }

def copyRegisters (registers n : Ref) : Heap :=
  let o := h.registers registers
  { h with
    general := update h.general n (h.general o.general)
    registers := update h.registers n { o with general := n } }

def copySymbols (symbols n : Ref) : Heap :=
  { h with symbols := update h.symbols n (h.symbols symbols) }

def copyConsole (console n : Ref) : Heap :=
  let o := h.consoles console
  { h with
    inputs := update h.inputs n (h.inputs o.input)
    outputs := update h.outputs n (h.outputs o.output)
    consoles := update h.consoles n ⟨n, n⟩ }

/-- Copies a machine with all its parts. -/
def copy (r : Ref) : Ref × Heap :=
  let n := h.next
  let o := h.machines r
  let h := h.copyMemory o.memory n
  let h := h.copyRegisters o.registers n
  let h := h.copySymbols o.symbols n
  let h := h.copyConsole o.console n
  (n, { h with machines := update h.machines n ⟨n, n, n, n, o.depth⟩, next := n + 1 })

end Heap

/-! ## Execution -/

namespace Stepper

variable (e : Stepper) (h : Heap)

def get (r : Reg) : Word :=
  (h.file e.registers).get r

def pc : Word :=
  (h.file e.registers).pc

def set (r : Reg) (w : Word) : Heap :=
  h.setFile e.registers ((h.file e.registers).set r w)

def jump (a : Word) : Heap :=
  h.setFile e.registers { h.file e.registers with pc := a }

/-- Writes a result: the condition describes it from then on. -/
def result (dr : Reg) (w : Word) : Heap :=
  h.setFile e.registers (((h.file e.registers).set dr w).setCondition w)

def sourceValue : Source → Word
  | .register r => e.get h r
  | .immediate v => v.signExtend 16

/-- The address that lies `offset` from the program counter. -/
def fromPC {n : Nat} (offset : BitVec n) : Word :=
  e.pc h + offset.signExtend 16

/-- The address that lies `offset` from a base register. -/
def fromBase (base : Reg) (offset : BitVec 6) : Word :=
  e.get h base + offset.signExtend 16

def loadFrom (dr : Reg) (a : Word) : Heap :=
  let (w, h) := h.read e.memory a
  e.result h dr w

/-- Changes the number of open calls. -/
def addDepth (n : Int) : Heap :=
  let o := h.machines e.machine
  { h with machines := update h.machines e.machine { o with depth := o.depth + n } }

/-- Calls a subroutine: the return address goes into the link register. -/
def call (a : Word) : Heap :=
  let h := e.set h linkRegister (e.pc h)
  let h := e.jump h a
  e.addDepth h 1

/-- Executes an instruction. The program counter already points behind it. -/
def execute : Instruction → Heap
  | .add dr sr source => e.result h dr (e.get h sr + e.sourceValue h source)
  | .and dr sr source => e.result h dr (e.get h sr &&& e.sourceValue h source)
  | .not dr sr => e.result h dr (~~~e.get h sr)
  | .br n z p offset =>
    let psr := (h.file e.registers).psr
    if (Instruction.br n z p offset).testedBits &&& psr.extractLsb' 0 3 = 0 then h
    else e.jump h (e.fromPC h offset)
  | .jmp base =>
    let target := e.jump h (e.get h base)
    if base = linkRegister then e.addDepth target (-1) else target
  | .jsr offset => e.call h (e.fromPC h offset)
  | .jsrr base => e.call h (e.get h base)
  | .ld dr offset => e.loadFrom h dr (e.fromPC h offset)
  | .ldi dr offset =>
    let (pointer, h) := h.read e.memory (e.fromPC h offset)
    e.loadFrom h dr pointer
  | .ldr dr base offset => e.loadFrom h dr (e.fromBase h base offset)
  | .lea dr offset => e.result h dr (e.fromPC h offset)
  | .st sr offset => h.write e.memory (e.fromPC h offset) (e.get h sr)
  | .sti sr offset =>
    let (pointer, h) := h.read e.memory (e.fromPC h offset)
    h.write e.memory pointer (e.get h sr)
  | .str sr base offset => h.write e.memory (e.fromBase h base offset) (e.get h sr)
  | .trap vector =>
    let h := e.set h linkRegister (e.pc h)
    let (target, h) := h.read e.memory (vector.setWidth 16)
    e.jump h target
  | .rti | .reserved => h

/-- Executes the instruction at the program counter and says whether a device was touched. -/
def step : Bool × Heap :=
  let h := h.setTouched e.memory false
  let word := (h.cells e.memory).peek (e.pc h)
  let h := h.setFile e.registers { h.file e.registers with ir := word, pc := e.pc h + 1 }
  let h := e.execute h (decode word)
  ((h.memories e.memory).touched, h)

end Stepper

/-- Steps a copy of a machine, with a stepper of its own. The answer is the copy. -/
def Heap.stepCopy (h : Heap) (r : Ref) : Ref × Bool × Heap :=
  let (n, h) := h.copy r
  let (e, h) := h.makeStepper n
  let (touched, h) := e.step h
  (n, touched, h)

end LC3.Objects
