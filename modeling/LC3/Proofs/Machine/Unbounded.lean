import Mathlib.Data.Int.Bitwise
import LC3.Proofs.Machine.Action

/-!
# The machine over unbounded integers

The cells and registers of `LC3.Machine` are words, its register numbers have three bits, and its
instructions have exactly the fields of their format: all of that by type. Here nothing is. Cells
and registers are lists of integers, a decoded word is one record of fields that may be missing, and
every lookup may fail. An integer is wrapped where an operation says so and nowhere else.

`LC3.Proofs.Machine.WordRange` shows that this machine never leaves the words, that stepping it
never fails, and that it is `LC3.Machine` all along.
-/

namespace LC3.Unbounded

/-- Why an operation cannot go on. -/
inductive Failure where
  /-- A decoded word lacks the field. -/
  | missingField
  /-- The number of no register. -/
  | register (n : Int)
  /-- An index outside the list of cells or registers. -/
  | index (n : Int)
  /-- The code of no operation. -/
  | opcode (n : Int)

/-! ## Integers as words -/

/-- The word congruent to `n` modulo 2^16, as a number. -/
def mask (n : Int) : Int :=
  n % 0x10000

/-- The `count` bits from bit `low` on, as a number. -/
def bits (n : Int) (low count : Nat) : Int :=
  n / 2 ^ low % 2 ^ count

/-- The signed number of the low sixteen bits. -/
def signed16 (n : Int) : Int :=
  if bits (mask n) 15 1 = 0 then mask n else mask n - 0x10000

/-- The signed number of the low `count` bits. -/
def signExtend (n : Int) (count : Nat) : Int :=
  let k := bits n 0 count
  signed16 (if bits k (count - 1) 1 = 0 then k else k - 2 ^ count)

/-- Sets bit 15. -/
def setReady (n : Int) : Int :=
  if bits n 15 1 = 0 then n + 0x8000 else n

/-- Clears bit 15 and what lies above. -/
def clearReady (n : Int) : Int :=
  bits n 0 15

/-! ## Lookups -/

def item (xs : List Int) (i : Int) : Except Failure Int :=
  if 0 ≤ i then xs[i.toNat]?.elim (.error (.index i)) .ok else .error (.index i)

def setItem (xs : List Int) (i v : Int) : Except Failure (List Int) :=
  if 0 ≤ i ∧ i < xs.length then .ok (xs.set i.toNat v) else .error (.index i)

/-- A field of a decoded word. -/
def field {α : Type} (x : Option α) : Except Failure α :=
  x.elim (.error .missingField) .ok

/-! ## Decoded words -/

inductive Opname where
  | add | and | br | jmp | jsr | jsrr | ld | ldi | ldr | lea | not | ret | rti | st | sti | str
  | trap | rsrv
  deriving DecidableEq, Repr

/-- The fields of a decoded word. Its operation decides which of them there are. -/
structure Decoded where
  opname : Opname
  dr : Option Int := none
  sr : Option Int := none
  sr1 : Option Int := none
  sr2 : Option Int := none
  base : Option Int := none
  offset : Option Int := none
  immediate : Option Int := none
  /-- The last operand is the immediate, not `sr2`. -/
  takesImmediate : Option Bool := none
  vector : Option Int := none
  n : Option Bool := none
  z : Option Bool := none
  p : Option Bool := none

namespace Decoded

def arithmetic (opname : Opname) (w : Int) : Decoded :=
  if bits w 5 1 = 0 then
    { opname, dr := bits w 9 3, sr1 := bits w 6 3, takesImmediate := false, sr2 := bits w 0 3 }
  else
    { opname, dr := bits w 9 3, sr1 := bits w 6 3, takesImmediate := true,
      immediate := signExtend w 5 }

def pcLoad (opname : Opname) (w : Int) : Decoded :=
  { opname, dr := bits w 9 3, offset := signExtend w 9 }

def pcStore (opname : Opname) (w : Int) : Decoded :=
  { opname, sr := bits w 9 3, offset := signExtend w 9 }

def branch (w : Int) : Decoded :=
  { opname := .br, offset := signExtend w 9, n := bits w 11 1 == 1, z := bits w 10 1 == 1,
    p := bits w 9 1 == 1 }

def jump (w : Int) : Decoded :=
  { opname := if bits w 6 3 = 7 then .ret else .jmp, base := bits w 6 3, offset := some 0 }

def call (w : Int) : Decoded :=
  if bits w 11 1 = 0 then { opname := .jsrr, base := bits w 6 3, offset := some 0 }
  else { opname := .jsr, offset := signExtend w 11 }

/-- The conditions that a branch tests, as they stand in the status. -/
def nzp (d : Decoded) : Except Failure Int :=
  return 4 * (← field d.n).toInt + 2 * (← field d.z).toInt + (← field d.p).toInt

end Decoded

def decode (n : Int) : Except Failure Decoded :=
  let w := mask n
  match w / 0x1000 with
  | 0 => .ok (.branch w)
  | 1 => .ok (.arithmetic .add w)
  | 2 => .ok (.pcLoad .ld w)
  | 3 => .ok (.pcStore .st w)
  | 4 => .ok (.call w)
  | 5 => .ok (.arithmetic .and w)
  | 6 => .ok { opname := .ldr, dr := bits w 9 3, base := bits w 6 3, offset := signExtend w 6 }
  | 7 => .ok { opname := .str, sr := bits w 9 3, base := bits w 6 3, offset := signExtend w 6 }
  | 8 => .ok { opname := .rti }
  | 9 => .ok { opname := .not, dr := bits w 9 3, sr := bits w 6 3 }
  | 10 => .ok (.pcLoad .ldi w)
  | 11 => .ok (.pcStore .sti w)
  | 12 => .ok (.jump w)
  | 13 => .ok { opname := .rsrv }
  | 14 => .ok (.pcLoad .lea w)
  | 15 => .ok { opname := .trap, vector := bits w 0 8 }
  | k => .error (.opcode k)

/-! ## States -/

/-- What answers when an instruction reads a cell. -/
inductive Reader where
  | cell
  | keyboard
  /-- The answers of a probe may be any integers. -/
  | probe (answer : Nat → Int)

structure Bus where
  reader? : Int → Option Reader
  writer? : Int → Option Writer

namespace Bus

def empty : Bus :=
  ⟨fun _ => none, fun _ => none⟩

def attach (u : Bus) (a : Int) (reader : Option Reader) (writer : Option Writer) : Bus where
  reader? b := if b = mask a then reader.or (u.reader? b) else u.reader? b
  writer? b := if b = mask a then writer.or (u.writer? b) else u.writer? b

/-- The keyboard and the display at their four addresses. -/
def attachDevices (u : Bus) : Bus :=
  (((u.attach 0xFE00 (some .cell) (some .nothing)).attach
    0xFE02 (some .keyboard) (some .nothing)).attach
    0xFE04 (some .cell) (some .nothing)).attach
    0xFE06 (some .cell) (some .display)

end Bus

structure Machine where
  cells : List Int
  general : List Int
  pc : Int
  ir : Int
  psr : Int
  symbols : SymbolTable
  console : Console
  depth : Int
  bus : Bus
  touched : Bool
  /-- How many accesses the probes have noted. -/
  noted : Nat

/-- Everything that should be a word is one, and nothing is missing. -/
structure Machine.WordSized (m : Machine) : Prop where
  length_cells : m.cells.length = 65536
  length_general : m.general.length = 8
  cells : ∀ v ∈ m.cells, 0 ≤ v ∧ v ≤ 0xFFFF
  general : ∀ v ∈ m.general, 0 ≤ v ∧ v ≤ 0xFFFF
  pc : 0 ≤ m.pc ∧ m.pc ≤ 0xFFFF
  ir : 0 ≤ m.ir ∧ m.ir ≤ 0xFFFF
  psr : 0 ≤ m.psr ∧ m.psr ≤ 0xFFFF

namespace Machine

def powerOn : Machine where
  cells := List.replicate 65536 0
  general := List.replicate 8 0
  pc := 0x3000
  ir := 0
  psr := 0x8002
  symbols := ∅
  console := .empty
  depth := 0
  bus := .empty
  touched := false
  noted := 0

/-! ## Cells and registers -/

def peek (m : Machine) (a : Int) : Except Failure Int :=
  item m.cells (mask a)

def poke (m : Machine) (a v : Int) : Except Failure Machine :=
  return { m with cells := ← setItem m.cells (mask a) (mask v) }

/-- The index of a register in the list of them. -/
def index (n : Option Int) : Except Failure Int := do
  let n ← field n
  if 0 ≤ n ∧ n < 8 then return n else throw (.register n)

def get (m : Machine) (n : Option Int) : Except Failure Int := do
  item m.general (← index n)

def set (m : Machine) (n : Option Int) (v : Int) : Except Failure Machine :=
  return { m with general := ← setItem m.general (← index n) (mask v) }

def jump (m : Machine) (a : Int) : Machine :=
  { m with pc := mask a }

/-- The status describes a result; its other bits stay. -/
def setCondition (m : Machine) (v : Int) : Machine :=
  let condition := if signed16 v < 0 then 4 else if signed16 v = 0 then 2 else 1
  { m with psr := mask (m.psr - m.psr % 8) + condition }

/-! ## Accesses of instructions -/

/-- The next character moves from the console to the keyboard's data, if one waits. -/
def takeCharacter (m : Machine) : Except Failure Machine :=
  match m.console.input with
  | [] => return m
  | c :: rest =>
    { m with console := { m.console with input := rest } }.poke 0xFE02 (c.toNat % 256)

def deliver (m : Machine) : Except Failure Machine := do
  let status := clearReady (← m.peek 0xFE00)
  let m ← m.takeCharacter
  m.poke 0xFE00 (if m.console.input.isEmpty then status else setReady status)

def print (m : Machine) (v : Int) : Except Failure Machine := do
  let m ← m.poke 0xFE04 (clearReady (← m.peek 0xFE04))
  return { m with console := m.console.print (Char.ofNat (v % 256).toNat) }

def note (m : Machine) : Machine :=
  { m with noted := m.noted + 1 }

def touch (m : Machine) : Machine :=
  { m with touched := true }

/-- What a reader answers at an address. -/
def answer (m : Machine) (a : Int) : Reader → Except Failure (Int × Machine)
  | .cell => return (← m.peek a, m)
  | .keyboard => do
    let m ← m.deliver
    return (← m.peek 0xFE02, m)
  | .probe answer => return (answer m.noted, m.note)

def read (m : Machine) (a : Int) : Except Failure (Int × Machine) :=
  match m.bus.reader? (mask a) with
  | none => return (← item m.cells (mask a), m)
  | some reader => return (← m.touch.answer (mask a) reader).map mask id

/-- What a writer does with a word. -/
def accept (m : Machine) (v : Int) : Writer → Except Failure Machine
  | .nothing => return m
  | .display => m.print v
  | .probe => return m.note

def write (m : Machine) (a v : Int) : Except Failure Machine := do
  let m := { m with cells := ← setItem m.cells (mask a) (mask v) }
  match m.bus.writer? (mask a) with
  | none => return m
  | some writer => m.touch.accept (mask v) writer

/-! ## Execution -/

def result (m : Machine) (dr : Option Int) (v : Int) : Except Failure Machine :=
  return (← m.set dr v).setCondition v

def fromPC (m : Machine) (offset : Option Int) : Except Failure Int :=
  return mask (m.pc + (← field offset))

def fromBase (m : Machine) (base offset : Option Int) : Except Failure Int :=
  return mask ((← m.get base) + (← field offset))

def lastOperand (m : Machine) (d : Decoded) : Except Failure Int := do
  if ← field d.takesImmediate then return mask (← field d.immediate) else m.get d.sr2

def loadFrom (m : Machine) (dr : Option Int) (a : Int) : Except Failure Machine := do
  let (v, m) ← m.read a
  m.result dr v

def link (m : Machine) : Except Failure Machine :=
  m.set (some 7) m.pc

def call (m : Machine) (a : Int) : Except Failure Machine :=
  return { (← m.link).jump a with depth := m.depth + 1 }

def execute (m : Machine) (d : Decoded) : Except Failure Machine :=
  match d.opname with
  | .add => do m.result d.dr ((← m.get d.sr1) + (← m.lastOperand d))
  | .and => do m.result d.dr (Int.land (← m.get d.sr1) (← m.lastOperand d))
  | .not => do m.result d.dr (-(← m.get d.sr) - 1)
  | .br => do
    if bits (Int.land (← d.nzp) m.psr) 0 3 = 0 then return m
    else return m.jump (← m.fromPC d.offset)
  | .jmp => return m.jump (← m.get d.base)
  | .ret => return { m.jump (← m.get (some 7)) with depth := m.depth - 1 }
  | .jsr => do m.call (← m.fromPC d.offset)
  | .jsrr => do m.call (← m.get d.base)
  | .ld => do m.loadFrom d.dr (← m.fromPC d.offset)
  | .ldi => do
    let (pointer, m) ← m.read (← m.fromPC d.offset)
    m.loadFrom d.dr pointer
  | .ldr => do m.loadFrom d.dr (← m.fromBase d.base d.offset)
  | .lea => do m.result d.dr (← m.fromPC d.offset)
  | .st => do m.write (← m.fromPC d.offset) (← m.get d.sr)
  | .sti => do
    let (pointer, m) ← m.read (← m.fromPC d.offset)
    m.write pointer (← m.get d.sr)
  | .str => do m.write (← m.fromBase d.base d.offset) (← m.get d.sr)
  | .trap => do
    let (target, m) ← (← m.link).read (← field d.vector)
    return m.jump target
  | .rti | .rsrv => return m

def step (m : Machine) : Except Failure Machine := do
  let w ← m.peek m.pc
  let d ← decode w
  { m with touched := false, ir := mask w, pc := mask (m.pc + 1) }.execute d

/-! ## Runs and actions -/

/-- Makes the display ready, and the keyboard if a character waits. -/
def makeReady (m : Machine) : Except Failure Machine := do
  let m ← m.poke 0xFE04 (setReady (← m.peek 0xFE04))
  if m.console.input.isEmpty then return m else m.poke 0xFE00 (setReady (← m.peek 0xFE00))

/-- Goes on until a `HALT` trap has executed, for at most so many steps. -/
def advance (m : Machine) : Nat → Except Failure Machine
  | 0 => return m
  | budget + 1 => do
    let m ← m.makeReady
    let d ← decode (← m.peek m.pc)
    let m ← m.step
    if d.opname = .trap ∧ d.vector = some 0x25 then return m else m.advance budget

/-- Copies words to the addresses from `a` on. -/
def store (m : Machine) (a : Int) : List Int → Except Failure Machine
  | [] => return m
  | w :: ws => do (← m.poke a w).store (a + 1) ws

def load (m : Machine) (p : Program) : Except Failure Machine := do
  let m := { ← m.store p.orig p.code with symbols := m.symbols.override p.symbols }
  return if p.code.isEmpty then m else m.jump p.orig

def attachDevices (m : Machine) : Machine :=
  { m with bus := m.bus.attachDevices }

def copy (m : Machine) : Machine :=
  { m with bus := .empty, touched := false, noted := 0 }

def act (m : Machine) : Action → Except Failure Machine
  | .load p => m.load p
  | .push text => return { m with console := m.console.push text }
  | .poke a v => m.poke a v
  | .write a v => m.write a v
  | .setRegister n v => m.set (some n) v
  | .setPC v => return m.jump v
  | .setIR v => return { m with ir := mask v }
  | .setPSR v => return { m with psr := mask v }
  | .resetRegisters =>
    return { m with general := List.replicate 8 0, pc := 0x3000, ir := 0, psr := 0x8002 }
  | .attachProbe a reader writer =>
    let writer := if writer then some .probe else none
    return { m with bus := m.bus.attach a (reader.map .probe) writer }
  | .attachDevices => return m.attachDevices
  | .step => m.step
  | .stepCopy => m.copy.attachDevices.step
  | .run budget => m.attachDevices.advance budget

/-- The machine after actions, one after another. One that fails changes nothing. -/
def actAll (m : Machine) (actions : List Action) : Machine :=
  actions.foldl (fun m a => (m.act a).toOption.getD m) m

end Machine

end LC3.Unbounded
