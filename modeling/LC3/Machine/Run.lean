import LC3.Machine.Step

/-!
# Runs

A run steps a machine until a `HALT` trap has executed or the step budget is spent. It plays the
world outside: before every step the display is made ready, and the keyboard whenever a character
waits. What was executed is kept, for traces and warnings.
-/

namespace LC3

/-- The trap vector that ends a run. -/
def haltVector : BitVec 8 := 0x25

/-- One executed instruction: where, which word, and the registers afterwards. -/
structure Executed where
  pc : Word
  word : Word
  after : Registers

namespace Executed

/-- The line of a trace. -/
def traceLine (e : Executed) : String :=
  let name := String.ofList (List.rightpad 5 ' ' (decode e.word).name.toList)
  "x" ++ Numeral.hex e.pc.toNat ++ ": " ++ Numeral.hex e.word.toNat ++ " " ++ name ++ " " ++
    e.after.display

/-- A warning, if the word was not well formed. -/
def warning? (e : Executed) : Option String :=
  if e.word.WellFormed then none
  else some <| "Executing malformed word " ++ Numeral.address e.word.toNat ++ " (" ++
    (decode e.word).name ++ ") at " ++ Numeral.address e.pc.toNat

/-- A `HALT` trap, malformed or not. -/
def halts (e : Executed) : Bool :=
  decode e.word = .trap haltVector

end Executed

/-- Executes the instruction at the program counter and says which it was. -/
def Machine.stepLogged (m : Machine) : Executed × Machine :=
  let pc := m.pc
  let word := m.nextWord
  let stepped := m.step
  (⟨pc, word, stepped.registers⟩, stepped)

/-- Steps a copy with devices of its own; the machine itself stays as it is. -/
def Machine.stepCopy (m : Machine) : Executed × Machine :=
  m.copy.attachDevices.stepLogged

/-- Makes the display ready, and the keyboard if a character waits. -/
def Machine.makeReady (m : Machine) : Machine :=
  let shown := m.memory.setReady displayStatus
  { m with memory := if m.console.input.isEmpty then shown else shown.setReady keyboardStatus }

structure Run where
  machine : Machine
  /-- What has been executed, the latest first. -/
  executed : List Executed
  halted : Bool

namespace Run

def steps (r : Run) : Nat :=
  r.executed.length

/-- A run that has not begun. -/
def start (m : Machine) : Run :=
  ⟨m.attachDevices, [], false⟩

/-- One more step. -/
def next (r : Run) : Run :=
  let (e, m) := r.machine.makeReady.stepLogged
  ⟨m, e :: r.executed, e.halts⟩

/-- Goes on for at most so many steps; a halted run stays as it is. -/
def advance : Nat → Run → Run
  | 0, r => r
  | budget + 1, r => if r.halted then r else advance budget r.next

end Run

/-- Runs a machine until it halts, for at most `budget` steps. -/
def Machine.run (m : Machine) (budget : Nat) : Run :=
  (Run.start m).advance budget

end LC3
