import LC3.Instruction.Decode
import LC3.Machine.Devices

/-!
# Execution

`step` fetches the word at the program counter and executes the instruction it stands for. The
fetch does not pass over the bus; every other access does. Words that are not well formed run on
their fields as they are, and `RTI` and the reserved opcode do nothing.
-/

namespace LC3

namespace Machine

def get (m : Machine) (r : Reg) : Word :=
  m.registers.get r

def set (m : Machine) (r : Reg) (w : Word) : Machine :=
  { m with registers := m.registers.set r w }

def pc (m : Machine) : Word :=
  m.registers.pc

def jump (m : Machine) (a : Word) : Machine :=
  { m with registers := { m.registers with pc := a } }

/-- Writes a result: the condition describes it from then on. -/
def result (m : Machine) (dr : Reg) (w : Word) : Machine :=
  { m with registers := (m.registers.set dr w).setCondition w }

def sourceValue (m : Machine) : Source → Word
  | .register r => m.get r
  | .immediate v => v.signExtend 16

/-- The address that lies `offset` from the program counter. -/
def fromPC (m : Machine) {n : Nat} (offset : BitVec n) : Word :=
  m.pc + offset.signExtend 16

/-- The address that lies `offset` from a base register. -/
def fromBase (m : Machine) (base : Reg) (offset : BitVec 6) : Word :=
  m.get base + offset.signExtend 16

/-- Loads the word read at `a`. -/
def loadFrom (m : Machine) (dr : Reg) (a : Word) : Machine :=
  let (w, m) := m.read a
  m.result dr w

/-- Calls a subroutine: the return address goes into the link register. -/
def call (m : Machine) (a : Word) : Machine :=
  let m := (m.set linkRegister m.pc).jump a
  { m with depth := m.depth + 1 }

/-- Executes an instruction. The program counter already points behind it. -/
def execute (m : Machine) : Instruction → Machine
  | .add dr sr source => m.result dr (m.get sr + m.sourceValue source)
  | .and dr sr source => m.result dr (m.get sr &&& m.sourceValue source)
  | .not dr sr => m.result dr (~~~m.get sr)
  | .br n z p offset =>
    if (Instruction.br n z p offset).testedBits &&& m.registers.psr.extractLsb' 0 3 = 0 then m
    else m.jump (m.fromPC offset)
  | .jmp base =>
    let target := m.jump (m.get base)
    if base = linkRegister then { target with depth := m.depth - 1 } else target
  | .jsr offset => m.call (m.fromPC offset)
  | .jsrr base => m.call (m.get base)
  | .ld dr offset => m.loadFrom dr (m.fromPC offset)
  | .ldi dr offset =>
    let (pointer, m) := m.read (m.fromPC offset)
    m.loadFrom dr pointer
  | .ldr dr base offset => m.loadFrom dr (m.fromBase base offset)
  | .lea dr offset => m.result dr (m.fromPC offset)
  | .st sr offset => m.write (m.fromPC offset) (m.get sr)
  | .sti sr offset =>
    let (pointer, m) := m.read (m.fromPC offset)
    m.write pointer (m.get sr)
  | .str sr base offset => m.write (m.fromBase base offset) (m.get sr)
  | .trap vector =>
    let (target, m) := (m.set linkRegister m.pc).read (vector.setWidth 16)
    m.jump target
  | .rti | .reserved => m

/-- The word at the program counter. -/
def nextWord (m : Machine) : Word :=
  m.memory.peek m.pc

/-- Fetches the next word and moves on, with `touched` cleared. -/
def fetch (m : Machine) : Machine :=
  { m with
    touched := false
    registers := { m.registers with ir := m.nextWord, pc := m.pc + 1 } }

/-- Executes the instruction at the program counter. -/
def step (m : Machine) : Machine :=
  m.fetch.execute (decode m.nextWord)

end Machine

end LC3
