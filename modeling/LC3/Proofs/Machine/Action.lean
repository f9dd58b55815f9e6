import LC3.Machine.Run

/-!
# Actions

What can be done to a machine from outside: loading, poking, typing, changing registers, attaching
devices and probes, and stepping. The integers of an action may be any. Instructions never attach
anything: a run leaves the bus as it is. Nor do they change the word that was fetched, which a step
leaves in the instruction register. `fetchesAll` lists the steps of actions by the machines that
fetch.
-/

namespace LC3

inductive Action where
  | load (p : Program)
  /-- Queues characters for the keyboard. -/
  | push (text : String)
  | poke (a v : Int)
  /-- Writes as an instruction does. -/
  | write (a v : Int)
  | setRegister (n v : Int)
  | setPC (v : Int)
  | setIR (v : Int)
  | setPSR (v : Int)
  | resetRegisters
  /-- Attaches probes. What the reader answers may depend on the accesses before. -/
  | attachProbe (a : Int) (reader : Option (Nat → Int)) (writer : Bool)
  | attachDevices
  | step
  /-- Goes on with a copy that has been stepped. -/
  | stepCopy
  | run (budget : Nat)

namespace Machine

/-- The machine after an action. A register that does not exist is not set. -/
def act (m : Machine) : Action → Machine
  | .load p => m.load p
  | .push text => m.push text
  | .poke a v => { m with memory := m.memory.poke (Word.ofInt a) (Word.ofInt v) }
  | .write a v => m.write (Word.ofInt a) (Word.ofInt v)
  | .setRegister n v =>
    match m.registers.set? n (Word.ofInt v) with
    | .ok r => { m with registers := r }
    | .error _ => m
  | .setPC v => { m with registers := { m.registers with pc := Word.ofInt v } }
  | .setIR v => { m with registers := { m.registers with ir := Word.ofInt v } }
  | .setPSR v => { m with registers := { m.registers with psr := Word.ofInt v } }
  | .resetRegisters => { m with registers := .powerOn }
  | .attachProbe a reader writer =>
    { m with
      bus := m.bus.attach (Word.ofInt a) (reader.map fun f => .probe fun k => Word.ofInt (f k))
        (if writer then some .probe else none) }
  | .attachDevices => m.attachDevices
  | .step => m.step
  | .stepCopy => m.stepCopy.2
  | .run budget => (m.run budget).machine

/-- The machine after actions, one after another. -/
def actAll (m : Machine) (actions : List Action) : Machine :=
  actions.foldl act m

variable (m : Machine)

/-! ## Accesses -/

theorem exists_deliver : ∃ memory console, m.deliver = { m with memory, console } := by
  unfold deliver
  cases m.console.input <;> exact ⟨_, _, rfl⟩

/-- A read changes memory and console at most, beside what is noted about it. -/
theorem exists_read (a : Word) : ∃ memory console touched accesses,
    (m.read a).2 = { m with memory, console, touched, accesses } := by
  unfold read
  cases m.bus.reader? a with
  | none => exact ⟨_, _, _, _, rfl⟩
  | some reader =>
    cases reader with
    | cell | probe => exact ⟨_, _, _, _, rfl⟩
    | keyboard =>
      obtain ⟨memory, console, h⟩ := exists_deliver { m with touched := true }
      exact ⟨memory, console, true, m.accesses, h⟩

theorem exists_write (a v : Word) : ∃ memory console touched accesses,
    m.write a v = { m with memory, console, touched, accesses } := by
  unfold write
  dsimp only
  cases m.bus.writer? a with
  | none => exact ⟨_, _, _, _, rfl⟩
  | some writer => cases writer <;> exact ⟨_, _, _, _, rfl⟩

/-! ## The bus -/

theorem bus_read (a : Word) : (m.read a).2.bus = m.bus := by
  obtain ⟨_, _, _, _, h⟩ := m.exists_read a
  rw [h]

theorem bus_write (a v : Word) : (m.write a v).bus = m.bus := by
  obtain ⟨_, _, _, _, h⟩ := m.exists_write a v
  rw [h]

theorem bus_execute (i : Instruction) : (m.execute i).bus = m.bus := by
  cases i with
  | add | and | not | jsr | jsrr | lea | rti | reserved => rfl
  | br n z p offset =>
    rw [execute]
    split <;> rfl
  | jmp base =>
    rw [execute]
    split <;> rfl
  | ld dr offset => exact m.bus_read _
  | ldi dr offset => exact (bus_read _ _).trans (m.bus_read _)
  | ldr dr base offset => exact m.bus_read _
  | st sr offset => exact m.bus_write _ _
  | sti sr offset => exact (bus_write _ _ _).trans (m.bus_read _)
  | str sr base offset => exact m.bus_write _ _
  | trap vector => exact bus_read _ _

theorem bus_step : m.step.bus = m.bus :=
  m.fetch.bus_execute _

/-! ## The registers -/

theorem registers_read (a : Word) : (m.read a).2.registers = m.registers := by
  obtain ⟨_, _, _, _, h⟩ := m.exists_read a
  rw [h]

theorem registers_write (a v : Word) : (m.write a v).registers = m.registers := by
  obtain ⟨_, _, _, _, h⟩ := m.exists_write a v
  rw [h]

theorem ir_execute (i : Instruction) : (m.execute i).registers.ir = m.registers.ir := by
  have load (m : Machine) (a : Word) : (m.read a).2.registers.ir = m.registers.ir := by
    rw [registers_read]
  have store (m : Machine) (a v : Word) : (m.write a v).registers.ir = m.registers.ir := by
    rw [registers_write]
  cases i with
  | add | and | not | jsr | jsrr | lea | rti | reserved => rfl
  | br n z p offset =>
    rw [execute]
    split <;> rfl
  | jmp base =>
    rw [execute]
    split <;> rfl
  | ld dr offset => exact load m _
  | ldi dr offset => exact (load _ _).trans (load m _)
  | ldr dr base offset => exact load m _
  | st sr offset => exact store m _ _
  | sti sr offset => exact (store _ _ _).trans (load m _)
  | str sr base offset => exact store m _ _
  | trap vector => exact load (m.set linkRegister m.pc) _

theorem ir_step : m.step.registers.ir = m.nextWord :=
  m.fetch.ir_execute _

end Machine

namespace Run

theorem advance_of_halted {r : Run} (h : r.halted = true) (budget : Nat) :
    advance budget r = r := by
  cases budget with
  | zero => rfl
  | succ budget => exact if_pos h

theorem bus_advance (budget : Nat) (r : Run) :
    (advance budget r).machine.bus = r.machine.bus := by
  induction budget generalizing r with
  | zero => rfl
  | succ budget ih =>
    unfold advance
    split
    · rfl
    · exact (ih r.next).trans r.machine.makeReady.bus_step

/-! ## Fetches -/

/-- The machines that fetch while a run goes on, one for each step. -/
def fetches : Nat → Run → List Machine
  | 0, _ => []
  | budget + 1, r => if r.halted then [] else r.machine.makeReady :: fetches budget r.next

/-- The steps that a run logs are those of the machines that fetch. -/
theorem executed_advance (budget : Nat) (r : Run) :
    (advance budget r).executed =
      ((fetches budget r).map fun f => f.stepLogged.1).reverse ++ r.executed := by
  induction budget generalizing r with
  | zero => rfl
  | succ budget ih =>
    unfold advance fetches
    split
    · rfl
    · rw [ih, List.map_cons, List.reverse_cons, List.append_assoc]
      rfl

end Run

namespace Machine

/-- The machines that fetch in an action. -/
def actFetches (m : Machine) : Action → List Machine
  | .step => [m]
  | .stepCopy => [m.copy.attachDevices]
  | .run budget => (Run.start m).fetches budget
  | _ => []

/-- The machines that fetch in actions, one after another. -/
def fetchesAll (m : Machine) : List Action → List Machine
  | [] => []
  | a :: actions => m.actFetches a ++ (m.act a).fetchesAll actions

end Machine

end LC3
