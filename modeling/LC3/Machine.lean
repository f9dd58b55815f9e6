import LC3.Console
import LC3.Memory
import LC3.Program
import LC3.Registers

/-!
# The machine

The whole simulated computer: memory, registers, console, the symbols of the programs loaded so
far, and the bus, on which accesses by instructions reach devices. Loading and inspecting a machine
never passes over the bus.
-/

namespace LC3

/-- What answers when an instruction reads a cell. -/
inductive Reader where
  /-- The cell's own contents. -/
  | cell
  /-- The keyboard's data register: takes the next character of the console. -/
  | keyboard
  /-- A probe that notes each access. What it answers may depend on how many were noted before. -/
  | probe (answer : Nat → Word)

/-- What happens, beside the store itself, when an instruction writes a cell. -/
inductive Writer where
  | nothing
  /-- The display's data register: prints the low byte. -/
  | display
  /-- A probe that notes each access. -/
  | probe
  deriving DecidableEq, Repr

/-- The readers and writers attached to addresses. -/
structure Bus where
  reader? : Word → Option Reader
  writer? : Word → Option Writer

/-- An access that a probe noted. -/
inductive Access where
  | read (a : Word)
  | write (a v : Word)
  deriving DecidableEq, Repr

structure Machine where
  memory : Memory
  registers : Registers
  symbols : SymbolTable
  console : Console
  /-- Subroutine calls less returns. -/
  depth : Int
  bus : Bus
  /-- An access has reached a device since this was last cleared. -/
  touched : Bool
  /-- What probes have noted, the oldest first. -/
  accesses : List Access

namespace Bus

/-- Nothing is attached. -/
def empty : Bus :=
  ⟨fun _ => none, fun _ => none⟩

/-- A side that is not given stays as it was. -/
def attach (u : Bus) (a : Word) (reader : Option Reader) (writer : Option Writer) : Bus where
  reader? b := if b = a then reader.or (u.reader? b) else u.reader? b
  writer? b := if b = a then writer.or (u.writer? b) else u.writer? b

end Bus

namespace Machine

/-- Power-on: blank memory, no symbols, nothing attached. -/
def powerOn : Machine where
  memory := .blank
  registers := .powerOn
  symbols := ∅
  console := .empty
  depth := 0
  bus := .empty
  touched := false
  accesses := []

/-- Loads words and symbols. The program counter moves to the origin unless there is no code. -/
def load (m : Machine) (p : Program) : Machine :=
  { m with
    memory := m.memory.load (Word.ofInt p.orig) (p.code.map Word.ofInt)
    symbols := m.symbols.override p.symbols
    registers :=
      if p.code.isEmpty then m.registers
      else { m.registers with pc := Word.ofInt p.orig } }

def push (m : Machine) (text : String) : Machine :=
  { m with console := m.console.push text }

/-- A copy of the state. A bus belongs to one machine and is not copied. -/
def copy (m : Machine) : Machine :=
  { m with bus := .empty, touched := false, accesses := [] }

def describe (m : Machine) : Except Fault String :=
  return "Machine(" ++ m.registers.display ++ ", depth=" ++ (← Numeral.decimal m.depth) ++ ")"

end Machine

end LC3
