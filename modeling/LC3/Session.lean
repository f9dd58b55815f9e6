import LC3.Assembly
import LC3.Image.Raw
import LC3.Machine.Run
import LC3.Session.Operation

/-!
# Sessions

A session drives one machine by a list of operations. Every operation ends in an entry: its answer
or the fault that stopped it, the warnings it gave, the machine as it is afterwards, and the cells
that have changed. A fault leaves the session as it was, and the next operation goes on from there.
-/

namespace LC3

namespace Session

/-- What steps the machine of a session. -/
structure Stepper where
  tracing : Bool
  trace : List String

structure Entry where
  answer : Except Fault Answer
  warnings : List String
  machine : Machine
  /-- The cells that differ from the entry before, by address. -/
  changes : List (Nat × Word)

end Session

structure Session where
  machine : Machine
  stepper : Option Session.Stepper
  saved : Option Machine
  /-- What the probes of all machines so far have noted. -/
  accesses : List Access

namespace Session

/-- A new machine, nothing attached. -/
def start : Session :=
  ⟨.powerOn, none, none, []⟩

def setMachine (s : Session) (m : Machine) : Session :=
  { s with machine := m }

/-- Changes the registers of the machine. -/
def mapRegisters (s : Session) (f : Registers → Registers) : Session :=
  s.setMachine { s.machine with registers := f s.machine.registers }

/-- Changes the memory of the machine. -/
def mapMemory (s : Session) (f : Memory → Memory) : Session :=
  s.setMachine { s.machine with memory := f s.machine.memory }

/-- A new stepper attaches the devices once more. -/
def attachStepper (s : Session) (tracing : Bool) : Session :=
  { s with machine := s.machine.attachDevices, stepper := some ⟨tracing, []⟩ }

/-- The session with a stepper: the one it has, or a new one without a trace. -/
def withStepper (s : Session) : Stepper × Session :=
  match s.stepper with
  | some stepper => (stepper, s)
  | none => (⟨false, []⟩, s.attachStepper false)

/-- One step of the machine. The trace of a tracing stepper grows by a line. -/
def step (s : Session) : Executed × Session :=
  let (stepper, s) := s.withStepper
  let (executed, m) := s.machine.stepLogged
  let trace := if stepper.tracing then stepper.trace ++ [executed.traceLine] else stepper.trace
  (executed, { s with machine := m, stepper := some { stepper with trace } })

/-- So many steps, each with the session after it. -/
def stepsFrom : Nat → Session → List (Executed × Bool) × Session
  | 0, s => ([], s)
  | n + 1, s =>
    let (executed, s) := s.step
    let touched := s.machine.touched
    let (rest, s) := stepsFrom n s
    ((executed, touched) :: rest, s)

/-- Runs the machine. The run's stepper stays attached. -/
def run (s : Session) (budget : Nat) (tracing : Bool) : Run × Session :=
  let run := s.machine.run budget
  let trace := if tracing then run.executed.reverse.map Executed.traceLine else []
  (run, { s with machine := run.machine, stepper := some ⟨tracing, trace⟩ })

/-- The trace of the session's stepper. -/
def trace (s : Session) : List String :=
  match s.stepper with
  | some stepper => stepper.trace
  | none => []

/-- Whether a machine has the memory, the registers and the symbols of another. -/
def compare (m old : Machine) : Answer :=
  .same (m.memory = old.memory) (m.registers = old.registers)
    (m.symbols.bindings = old.symbols.bindings)

/-- What an operation does that ends without a fault. -/
structure Effect where
  answer : Answer
  executed : List Executed
  session : Session

/-- The effect of an operation that only inspects. -/
def inspect (s : Session) (answer : Answer) : Except Fault Effect :=
  .ok ⟨answer, [], s⟩

/-- The effect of an operation that answers nothing. -/
def change (s : Session) : Except Fault Effect :=
  .ok ⟨.none, [], s⟩

def apply (s : Session) : Operation → Except Fault Effect
  | .load p => change (s.setMachine (s.machine.load p))
  | .loadSource text => do
    change (s.setMachine (s.machine.load (← (← Assembly.assemble text).unwrap)))
  | .loadRaw text => do
    change (s.setMachine (s.machine.load (← (Image.readRaw text).unwrap)))
  | .symbols => inspect s (.symbols s.machine.symbols)
  | .attachStepper tracing => change (s.attachStepper tracing)
  | .step =>
    let (executed, s) := s.step
    .ok ⟨.touched s.machine.touched, [executed], s⟩
  | .steps count =>
    let (_, s) := s.withStepper
    let (done, s) := stepsFrom count.toNat s
    .ok ⟨.steps (done.map fun (e, touched) => (touched, e.after)), done.map (·.1), s⟩
  | .stepCopy =>
    let (executed, m) := s.machine.stepCopy
    let same := decide (s.machine.memory = m.memory)
    .ok ⟨.stepCopy m.touched s.machine same, [executed],
      { s with machine := m, stepper := none }⟩
  | .run budget tracing =>
    let (run, s) := s.run budget.toNat tracing
    .ok ⟨.run run.steps run.halted s.trace, run.executed.reverse, s⟩
  | .trace =>
    let (stepper, s) := s.withStepper
    inspect s (.trace stepper.trace)
  | .getRegister n => do inspect s (.word (← s.machine.registers.get? n))
  | .setRegister n v => do
    let r ← s.machine.registers.set? n (Word.ofInt v)
    change (s.mapRegisters fun _ => r)
  | .setPC v => change (s.mapRegisters fun r => { r with pc := Word.ofInt v })
  | .setIR v => change (s.mapRegisters fun r => { r with ir := Word.ofInt v })
  | .setPSR v => change (s.mapRegisters fun r => { r with psr := Word.ofInt v })
  | .setCondition v => change (s.mapRegisters fun r => r.setCondition (Word.ofInt v))
  | .condition => inspect s (.condition (Condition.ofStatus? s.machine.registers.psr))
  | .reset => change (s.mapRegisters fun _ => .powerOn)
  | .fields => inspect s (.fields s.machine.registers)
  | .display => inspect s (.text s.machine.registers.display)
  | .describe => do
    inspect s (.describe (← s.machine.describe) s.machine.registers.describe)
  | .setDepth v => change (s.setMachine { s.machine with depth := v })
  | .push text => change (s.setMachine (s.machine.push text))
  | .peek a => inspect s (.word (s.machine.memory.peek (Word.ofInt a)))
  | .poke a v => change (s.mapMemory fun m => m.poke (Word.ofInt a) (Word.ofInt v))
  | .read a =>
    let (w, m) := s.machine.read (Word.ofInt a)
    inspect (s.setMachine m) (.word w)
  | .write a v => change (s.setMachine (s.machine.write (Word.ofInt a) (Word.ofInt v)))
  | .untouch => change (s.setMachine { s.machine with touched := false })
  | .attachProbe a reader writer =>
    let bus := s.machine.bus.attach (Word.ofInt a)
      (reader.map fun v => .probe fun _ => Word.ofInt v) (if writer then some .probe else none)
    change (s.setMachine { s.machine with bus })
  | .accesses => inspect s (.accesses s.accesses)
  | .loadWords a words =>
    change (s.mapMemory fun m => m.load (Word.ofInt a) (words.map Word.ofInt))
  | .slice start stop => inspect s (.words (s.machine.memory.slice start stop))
  | .item n => do inspect s (.word (← s.machine.memory.item? n))
  | .size => inspect s (.size memorySize)
  | .hexdump start length => inspect s (.text (s.machine.memory.hexdump start length))
  | .save => change { s with saved := some s.machine.copy }
  | .restore =>
    match s.saved with
    | some m => change { s with machine := m, stepper := none }
    | none => change s
  | .same => inspect s (compare s.machine (s.saved.getD s.machine))

/-- Moves what the probes of the machine have noted into the session. -/
def collect (s : Session) : Session :=
  { s with
    accesses := s.accesses ++ s.machine.accesses
    machine := { s.machine with accesses := [] } }

/-- Performs an operation. -/
def perform (s : Session) (op : Operation) : Entry × Session :=
  match s.apply op with
  | .error f => (⟨.error f, [], s.machine, []⟩, s)
  | .ok effect =>
    let next := effect.session.collect
    (⟨.ok effect.answer, effect.executed.filterMap Executed.warning?, next.machine,
      s.machine.memory.changes next.machine.memory⟩, next)

/-- Performs operations one after another. -/
def performAll (s : Session) : List Operation → List Entry
  | [] => []
  | op :: ops =>
    let (entry, s) := s.perform op
    entry :: s.performAll ops

end Session

end LC3
