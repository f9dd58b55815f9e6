import LC3.Machine

/-!
# Memory-mapped devices

The keyboard and the display each have a status and a data register among the last cells of memory.
`Machine.read` and `Machine.write` are the accesses of instructions: they reach the reader or
writer at the address, if one is attached, and set `touched`.
-/

namespace LC3

/-- Keyboard status: bit 15 is set while a character waits. -/
def keyboardStatus : Word := 0xFE00

/-- Keyboard data: the low byte of the character delivered last. -/
def keyboardData : Word := 0xFE02

/-- Display status: bit 15 is set while the display is ready. -/
def displayStatus : Word := 0xFE04

/-- Display data: the low byte is printed. -/
def displayData : Word := 0xFE06

def readyBit : Word := 0x8000

namespace Memory

def setReady (m : Memory) (a : Word) : Memory :=
  m.poke a (m.peek a ||| readyBit)

def clearReady (m : Memory) (a : Word) : Memory :=
  m.poke a (m.peek a &&& ~~~readyBit)

end Memory

/-- The low eight bits of a character code. -/
def lowByte (c : Char) : Word :=
  BitVec.ofNat 16 (c.toNat % 256)

namespace Machine

/-- Attaches the keyboard and the display at their four addresses. -/
def attachDevices (m : Machine) : Machine :=
  { m with
    bus := (((m.bus.attach keyboardStatus (some .cell) (some .nothing)).attach
      keyboardData (some .keyboard) (some .nothing)).attach
      displayStatus (some .cell) (some .nothing)).attach
      displayData (some .cell) (some .display) }

/-- Delivers the next character, if one waits. The keyboard stays ready while more wait. -/
def deliver (m : Machine) : Machine :=
  let cleared := m.memory.clearReady keyboardStatus
  match m.console.input with
  | [] => { m with memory := cleared }
  | c :: rest =>
    let delivered := cleared.poke keyboardData (lowByte c)
    { m with
      console := { m.console with input := rest }
      memory := if rest.isEmpty then delivered else delivered.setReady keyboardStatus }

/-- Prints the low byte of a word; the display is busy from then on. -/
def print (m : Machine) (v : Word) : Machine :=
  { m with
    memory := m.memory.clearReady displayStatus
    console := m.console.print (Char.ofNat (v.toNat % 256)) }

def note (m : Machine) (access : Access) : Machine :=
  { m with accesses := m.accesses ++ [access] }

/-- Reads a word as an instruction does. -/
def read (m : Machine) (a : Word) : Word × Machine :=
  match m.bus.reader? a with
  | none => (m.memory.peek a, m)
  | some reader =>
    let m := { m with touched := true }
    match reader with
    | .cell => (m.memory.peek a, m)
    | .keyboard =>
      let m := m.deliver
      (m.memory.peek keyboardData, m)
    | .probe answer => (answer m.accesses.length, m.note (.read a))

/-- Writes a word as an instruction does. The cell is stored whatever is attached. -/
def write (m : Machine) (a v : Word) : Machine :=
  let m := { m with memory := m.memory.poke a v }
  match m.bus.writer? a with
  | none => m
  | some writer =>
    let m := { m with touched := true }
    match writer with
    | .nothing => m
    | .display => m.print v
    | .probe => m.note (.write a v)

end Machine

end LC3
