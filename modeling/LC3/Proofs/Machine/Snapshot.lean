import LC3.Proofs.Machine.Budget
import LC3.Proofs.Machine.Value

/-!
# Snapshots

A machine made of objects may be stepped in place, or a copy of it may be stepped instead. A step in
place changes the machine's own parts, which is what `Agree` says of the heap before and after, and a
copy has none but new parts. So a run that does both follows the machine as a value
(`Course.Follows.run`), and leaves every machine alone that it has copied: `run_mixed`.
-/

namespace LC3.Objects

namespace Heap

/-! ## Parts -/

/-- The objects that a machine is made of. -/
def parts (h : Heap) (r : Ref) : List Ref :=
  let o := h.machines r
  let memory := h.memories o.memory
  let console := h.consoles o.console
  [r, o.memory, memory.words, memory.readers, memory.writers, o.registers,
    (h.registers o.registers).general, o.symbols, o.console, console.input, console.output]

/-- The objects of one number, one of each kind. -/
structure Row where
  words : Memory
  readers : Word → Option ReadHandler
  writers : Word → Option WriteHandler
  memory : MemoryObject
  general : Vector Word 8
  registers : RegistersObject
  symbols : SymbolTable
  input : List Char
  output : String
  console : ConsoleObject
  machine : MachineObject

def row (h : Heap) (x : Ref) : Row :=
  ⟨h.words x, h.readers x, h.writers x, h.memories x, h.general x, h.registers x, h.symbols x,
    h.inputs x, h.outputs x, h.consoles x, h.machines x⟩

/-- The heaps have the same objects below a number. -/
def Agree (b : Ref) (h h' : Heap) : Prop :=
  ∀ x < b, h'.row x = h.row x

variable {h h' h'' : Heap} {r b : Ref}

theorem Agree.trans (h1 : Agree b h h') (h2 : Agree b h' h'') : Agree b h h'' :=
  fun x hx => (h2 x hx).trans (h1 x hx)

theorem Agree.mono {b' : Ref} (hb : b ≤ b') (ha : Agree b' h h') : Agree b h h' :=
  fun x hx => ha x (Nat.lt_of_lt_of_le hx hb)

theorem Agree.keeps (ha : Agree b h h') (hp : ∀ x ∈ h.parts r, x < b) :
    h'.value r = h.value r ∧ h'.handlers r = h.handlers r := by
  simp only [parts, List.forall_mem_cons] at hp
  obtain ⟨h1, h2, h3, h4, h5, h6, h7, h8, h9, h10, h11, -⟩ := hp
  simp only [Agree, row, Row.mk.injEq] at ha
  simp [value, cells, file, input, output, bus, handlers, ha _ h1, ha _ h2, ha _ h3, ha _ h4,
    ha _ h5, ha _ h6, ha _ h7, ha _ h8, ha _ h9, ha _ h10, ha _ h11]

theorem agree_assign (hp : ∀ x ∈ h.parts r, b ≤ x) (m : Machine) : Agree b h (h.assign r m) := by
  intro x hx
  have hne : ∀ y ∈ h.parts r, x ≠ y := fun y hy => Nat.ne_of_lt (Nat.lt_of_lt_of_le hx (hp y hy))
  simp only [parts, List.forall_mem_cons] at hne
  simp [row, assign, hne]

theorem agree_makeStepper (hp : ∀ x ∈ h.parts r, b ≤ x) : Agree b h (h.makeStepper r).2 := by
  intro x hx
  have hne : ∀ y ∈ h.parts r, x ≠ y := fun y hy => Nat.ne_of_lt (Nat.lt_of_lt_of_le hx (hp y hy))
  simp only [parts, List.forall_mem_cons] at hne
  simp [row, makeStepper, attachDevices, register, hne]

theorem agree_copy : Agree h.next h (h.copy r).2 := by
  intro x hx
  have hne : x ≠ h.next := Nat.ne_of_lt hx
  simp [row, copy, copyMemory, copyRegisters, copySymbols, copyConsole, hne]

theorem parts_copy : ∀ x ∈ (h.copy r).2.parts h.next, x = h.next := by
  simp [parts, copy, copyMemory, copyRegisters, copySymbols, copyConsole]

theorem parts_assign (m : Machine) : (h.assign r m).parts r = h.parts r := by
  simp [parts, assign]

/-! ## Machines in a heap -/

/-- The machine `r` has this value, and its parts have numbers from `b` on. -/
structure Holds (b : Ref) (h : Heap) (r : Ref) (m : Machine) : Prop where
  value : h.value r = m
  lower : ∀ x ∈ h.parts r, b ≤ x
  upper : ∀ x ∈ h.parts r, x < h.next

variable {m : Machine}

theorem Holds.bus_eq (hh : Holds b h r m) : m.bus = h.bus r := by
  rw [← hh.value]
  rfl

theorem Holds.accesses_eq (hh : Holds b h r m) : m.accesses = [] := by
  rw [← hh.value]
  rfl

/-- A machine with devices of its own, which can be stepped in place. -/
structure Ready (b : Ref) (h : Heap) (r : Ref) (m : Machine) : Prop extends Holds b h r m where
  owns : h.OwnsHandlers r
  devices : m.bus = .devices

theorem Holds.makeStepper (hh : Holds b h r m) (hd : m.bus.OnlyDevices) :
    Ready b (h.makeStepper r).2 r m.attachDevices ∧ Agree b h (h.makeStepper r).2 := by
  refine ⟨⟨⟨?_, hh.lower, hh.upper⟩, ?_, ?_⟩, agree_makeStepper hh.lower⟩
  · rw [value_makeStepper, hh.value]
  · exact ownsHandlers_makeStepper h r (hh.bus_eq ▸ hd)
  · exact Machine.bus_attachDevices_of_onlyDevices hd

theorem OwnsHandlers.assign (ho : h.OwnsHandlers r) (m : Machine) :
    (h.assign r m).OwnsHandlers r := by
  have hconsole : ((h.assign r m).machines r).console = (h.machines r).console := by
    simp [Heap.assign]
  have hmemory : ((h.assign r m).machines r).memory = (h.machines r).memory := by
    simp [Heap.assign]
  constructor <;> intro a handler hh <;> rw [handlers_assign] at hh <;> rw [hconsole, hmemory]
  · exact ho.reader a handler hh
  · exact ho.writer a handler hh

/-- A step in place changes the machine's own parts, and the machine stays ready. -/
theorem Ready.step (hr : Ready b h r m) :
    ∃ h', (h.stepper r).step h = (m.step.touched, h') ∧ h'.stepper r = h.stepper r ∧
      Ready b h' r m.step ∧ Agree b h h' := by
  have hstep := Stepper.step_eq hr.owns
  rw [hr.value] at hstep
  have hbus : m.step.bus = h.bus r := m.bus_step.trans hr.bus_eq
  have haccesses : m.step.accesses = [] :=
    (Machine.sameOutside_execute (m := m.fetch) hr.devices _).accesses.trans hr.accesses_eq
  refine ⟨h.assign r m.step, hstep, ?_, ⟨⟨?_, ?_, ?_⟩, hr.owns.assign _, ?_⟩,
    agree_assign hr.lower _⟩
  · simp [Heap.assign, stepper]
  · rw [value_assign, ← hbus, ← haccesses]
  · rw [parts_assign]
    exact hr.lower
  · rw [parts_assign]
    exact hr.upper
  · exact m.bus_step.trans hr.devices

theorem Holds.copy (hh : Holds b h r m) :
    Holds h.next (h.copy r).2 h.next m.copy ∧ Agree h.next h (h.copy r).2 := by
  refine ⟨⟨?_, fun x hx => ?_, fun x hx => ?_⟩, agree_copy⟩
  · rw [value_copy, hh.value]
  · rw [parts_copy x hx]
  · rw [parts_copy x hx]
    exact Nat.lt_succ_self h.next

end Heap

/-! ## Copies as values -/

theorem onlyDevices_copy (m : Machine) : m.copy.bus.OnlyDevices :=
  fun _ _ => ⟨rfl, rfl⟩

/-- What a copy lacks, a step does not read. -/
theorem step_copy {m : Machine} (hd : m.bus.OnlyDevices) (ha : m.accesses = []) :
    m.copy.attachDevices.step = m.attachDevices.step := by
  have hbus : m.copy.attachDevices.bus = m.attachDevices.bus :=
    (Machine.bus_attachDevices_of_onlyDevices (onlyDevices_copy m)).trans
      (Machine.bus_attachDevices_of_onlyDevices hd).symm
  have hfetch : m.copy.attachDevices.fetch = m.attachDevices.fetch := by
    calc m.copy.attachDevices.fetch
        = { m.attachDevices.fetch with bus := m.copy.attachDevices.bus, accesses := [] } := rfl
      _ = { m.attachDevices.fetch with bus := m.attachDevices.bus, accesses := m.accesses } := by
        rw [hbus, ha]
      _ = m.attachDevices.fetch := rfl
  rw [Machine.step, hfetch]
  rfl

/-! ## Runs -/

/-- How a machine is stepped. -/
inductive Choice where
  /-- In place, by the stepper at hand. If there is none, one is made. -/
  | kept
  /-- In place, by a new stepper. -/
  | anew
  /-- A copy is stepped, and the run goes on with it. -/
  | copied
  deriving DecidableEq, Repr

/-- A run so far: the machine that it has come to, the stepper at hand, and whether the steps touched
devices, the oldest first. -/
structure Course where
  heap : Heap
  current : Ref
  stepper : Option Stepper
  touched : List Bool

/-- A run so far, with the machine as a value. -/
structure Trail where
  machine : Machine
  touched : List Bool

namespace Course

/-- A run that has not begun. -/
def start (h : Heap) (r : Ref) : Course :=
  ⟨h, r, none, []⟩

/-- Steps the machine in place. -/
def advance (c : Course) (e : Stepper) (h : Heap) : Course :=
  let (touched, h) := e.step h
  ⟨h, c.current, some e, c.touched ++ [touched]⟩

def next (c : Course) : Choice → Course
  | .kept =>
    let (e, h) := c.stepper.elim (c.heap.makeStepper c.current) fun e => (e, c.heap)
    c.advance e h
  | .anew =>
    let (e, h) := c.heap.makeStepper c.current
    c.advance e h
  | .copied =>
    let (n, touched, h) := c.heap.stepCopy c.current
    ⟨h, n, none, c.touched ++ [touched]⟩

def run (c : Course) (choices : List Choice) : Course :=
  choices.foldl next c

def trail (c : Course) : Trail :=
  ⟨c.heap.value c.current, c.touched⟩

end Course

namespace Trail

def add (t : Trail) (m : Machine) : Trail :=
  ⟨m, t.touched ++ [m.touched]⟩

/-- A step in place attaches the devices, which changes nothing where they are attached already. -/
def next (t : Trail) : Choice → Trail
  | .kept | .anew => t.add t.machine.attachDevices.step
  | .copied => t.add t.machine.stepCopy.2

def run (t : Trail) (choices : List Choice) : Trail :=
  choices.foldl next t

theorem next_eq (t : Trail) (hd : t.machine.bus.OnlyDevices) (ha : t.machine.accesses = [])
    (choice : Choice) : t.next choice = t.next .kept := by
  cases choice with
  | kept | anew => rfl
  | copied => exact congrArg t.add (step_copy hd ha)

end Trail

namespace Course

open Heap (Holds Ready Agree)

/-- The run has come to this machine, and with it to the numbers from `b` on. -/
structure Follows (b : Ref) (c : Course) (t : Trail) : Prop where
  holds : Holds b c.heap c.current t.machine
  only : t.machine.bus.OnlyDevices
  stepper : ∀ e, c.stepper = some e →
    e = c.heap.stepper c.current ∧ Ready b c.heap c.current t.machine
  touched : c.touched = t.touched

variable {b : Ref} {c : Course} {t : Trail}

theorem Follows.le_next (hf : Follows b c t) : b ≤ c.heap.next := by
  have hmem : c.current ∈ c.heap.parts c.current := by simp [Heap.parts]
  exact Nat.le_of_lt (Nat.lt_of_le_of_lt (hf.holds.lower _ hmem) (hf.holds.upper _ hmem))

theorem Follows.trail (hf : Follows b c t) : c.trail = t := by
  rw [Course.trail, hf.holds.value, hf.touched]

theorem Follows.advance (hf : Follows b c t) {h : Heap} {m : Machine}
    (hr : Ready b h c.current m) :
    Follows b (c.advance (h.stepper c.current) h) (t.add m.step) ∧
      Agree b h (c.advance (h.stepper c.current) h).heap := by
  obtain ⟨h', hs, he, hr', ha⟩ := hr.step
  have hc : c.advance (h.stepper c.current) h =
      ⟨h', c.current, some (h.stepper c.current), c.touched ++ [m.step.touched]⟩ := by
    rw [Course.advance, hs]
  rw [hc]
  refine ⟨⟨hr'.toHolds, ?_, ?_, ?_⟩, ha⟩
  · exact hr'.devices ▸ Bus.onlyDevices_devices
  · intro e hs
    cases hs
    exact ⟨he.symm, hr'⟩
  · rw [hf.touched]
    rfl

theorem Follows.anew (hf : Follows b c t) :
    Follows b (c.next .anew) (t.next .anew) ∧ Agree b c.heap (c.next .anew).heap := by
  obtain ⟨hr, ha⟩ := hf.holds.makeStepper hf.only
  obtain ⟨hf', ha'⟩ := hf.advance hr
  exact ⟨hf', ha.trans ha'⟩

theorem Follows.kept (hf : Follows b c t) :
    Follows b (c.next .kept) (t.next .kept) ∧ Agree b c.heap (c.next .kept).heap := by
  cases hs : c.stepper with
  | none =>
    have hnext : c.next .kept = c.next .anew := by
      rw [next, hs]
      rfl
    rw [hnext]
    exact hf.anew
  | some e =>
    obtain ⟨rfl, hr⟩ := hf.stepper e hs
    have hnext : c.next .kept = c.advance (c.heap.stepper c.current) c.heap := by
      rw [next, hs]
      rfl
    have hattached : t.machine.attachDevices = t.machine :=
      Machine.attachDevices_of_bus (n := .powerOn) hr.devices
    rw [hnext, Trail.next, hattached]
    exact hf.advance hr

theorem Follows.copied (hf : Follows b c t) :
    Follows c.heap.next (c.next .copied) (t.next .copied) ∧
      Agree c.heap.next c.heap (c.next .copied).heap := by
  obtain ⟨hh, hcopy⟩ := hf.holds.copy
  obtain ⟨hr, hmake⟩ := hh.makeStepper (onlyDevices_copy t.machine)
  obtain ⟨h', hs, -, hr', hstep⟩ := hr.step
  have hc : c.next .copied = ⟨h', c.heap.next, none,
      c.touched ++ [t.machine.copy.attachDevices.step.touched]⟩ := by
    rw [next, Heap.stepCopy_eq, hs]
  rw [hc]
  refine ⟨⟨hr'.toHolds, ?_, nofun, ?_⟩, (hcopy.trans hmake).trans hstep⟩
  · exact hr'.devices ▸ Bus.onlyDevices_devices
  · rw [hf.touched]
    rfl

theorem Follows.next (hf : Follows b c t) (choice : Choice) :
    ∃ b' ≥ b, Follows b' (c.next choice) (t.next choice) ∧
      Agree b c.heap (c.next choice).heap := by
  cases choice with
  | kept => exact ⟨b, Nat.le_refl b, hf.kept⟩
  | anew => exact ⟨b, Nat.le_refl b, hf.anew⟩
  | copied =>
    obtain ⟨hf', ha⟩ := hf.copied
    exact ⟨c.heap.next, hf.le_next, hf', ha.mono hf.le_next⟩

/-- A run follows the machine as a value, and leaves alone whatever it has not come to. -/
theorem Follows.run (hf : Follows b c t) (choices : List Choice) :
    (∃ b', Follows b' (c.run choices) (t.run choices)) ∧ Agree b c.heap (c.run choices).heap := by
  induction choices generalizing b c t with
  | nil => exact ⟨⟨b, hf⟩, fun _ _ => rfl⟩
  | cons choice choices ih =>
    obtain ⟨b', hb, hf', ha⟩ := hf.next choice
    obtain ⟨hlast, hrest⟩ := ih hf'
    exact ⟨hlast, ha.trans (hrest.mono hb)⟩

/-- Every step might as well be one in place. -/
theorem Follows.run_eq (hf : Follows b c t) (choices : List Choice) :
    t.run choices = t.run (List.replicate choices.length .kept) := by
  induction choices generalizing b c t with
  | nil => rfl
  | cons choice choices ih =>
    obtain ⟨b', -, hf', -⟩ := hf.next choice
    calc t.run (choice :: choices)
        = (t.next choice).run (List.replicate choices.length .kept) := ih hf'
      _ = (t.next .kept).run (List.replicate choices.length .kept) := by
        rw [t.next_eq hf.only hf.holds.accesses_eq]
      _ = t.run (List.replicate (choice :: choices).length .kept) := rfl

/-- A machine that is copied stays as it is, however the run goes on with its copy. -/
theorem Follows.keeps (hf : Follows b c t) (choices : List Choice) :
    (c.run (.copied :: choices)).heap.value c.current = c.heap.value c.current ∧
      (c.run (.copied :: choices)).heap.handlers c.current = c.heap.handlers c.current := by
  obtain ⟨hf', ha⟩ := hf.copied
  obtain ⟨-, hrest⟩ := hf'.run choices
  exact (ha.trans hrest).keeps hf.holds.upper

end Course

/-- A machine that has no handlers but those of devices may be stepped in place or by copies, as one
chooses: the run ends as it would in place, and as that of the machine as a value. A machine that has
been copied keeps its state and its handlers. -/
theorem run_mixed {h : Heap} {r : Ref} (hr : ∀ x ∈ h.parts r, x < h.next)
    (hd : (h.value r).bus.OnlyDevices) (choices : List Choice) :
    let start := Course.start h r
    let last := start.run choices
    last.trail = Trail.run ⟨h.value r, []⟩ choices ∧
      last.trail = (start.run (List.replicate choices.length .kept)).trail ∧
      ∀ before after, choices = before ++ .copied :: after →
        let passed := start.run before
        last.heap.value passed.current = passed.heap.value passed.current ∧
          last.heap.handlers passed.current = passed.heap.handlers passed.current := by
  intro start last
  have hf : start.Follows 0 ⟨h.value r, []⟩ :=
    ⟨⟨rfl, fun _ _ => Nat.zero_le _, hr⟩, hd, nofun, rfl⟩
  have htrail (choices : List Choice) :
      (start.run choices).trail = Trail.run ⟨h.value r, []⟩ choices := by
    obtain ⟨⟨b, hlast⟩, -⟩ := hf.run choices
    exact hlast.trail
  refine ⟨htrail choices, ?_, ?_⟩
  · rw [htrail, htrail]
    exact hf.run_eq choices
  · rintro before after rfl
    obtain ⟨⟨b, hpassed⟩, -⟩ := hf.run before
    have hlast : last = (start.run before).run (.copied :: after) := List.foldl_append
    rw [hlast]
    exact hpassed.keeps after

/-- A heap with one machine, which has no handlers. -/
def Heap.ofMachine (m : Machine) : Heap where
  words _ := m.memory
  readers _ _ := none
  writers _ _ := none
  memories _ := ⟨0, 0, 0, m.touched⟩
  general _ := m.registers.general
  registers _ := ⟨0, m.registers.pc, m.registers.ir, m.registers.psr⟩
  symbols _ := m.symbols
  inputs _ := m.console.input
  outputs _ := m.console.output
  consoles _ := ⟨0, 0⟩
  machines _ := ⟨0, 0, 0, 0, m.depth⟩
  next := 1

/-- Characters are read from the keyboard's data in place, by copies and in place again. -/
theorem run_mixed_keyboard :
    let m := (Machine.powerOn.load ⟨0x3000, [0xA001, 0x0FFE, 0xFE02], ∅⟩).push "Hi"
    let h := Heap.ofMachine m
    let start := Course.start h 0
    let last := start.run [.kept, .copied, .copied, .anew]
    let passed := start.run [.kept, .copied]
    ((∀ x ∈ h.parts 0, x < h.next) ∧ (h.value 0).bus.OnlyDevices) ∧
      last.trail = Trail.run ⟨h.value 0, []⟩ [.kept, .copied, .copied, .anew] ∧
      last.trail = (start.run [.kept, .kept, .kept, .kept]).trail ∧
      last.heap.value passed.current = passed.heap.value passed.current ∧
      last.heap.handlers passed.current = passed.heap.handlers passed.current := by
  intro m h start last passed
  have hr : ∀ x ∈ h.parts 0, x < h.next := by simp [h, Heap.ofMachine, Heap.parts]
  have hd : (h.value 0).bus.OnlyDevices := fun _ _ => ⟨rfl, rfl⟩
  obtain ⟨hvalue, hplace, hkeeps⟩ := run_mixed hr hd [.kept, .copied, .copied, .anew]
  exact ⟨⟨hr, hd⟩, hvalue, hplace, hkeeps [.kept, .copied] [.anew] rfl⟩

end LC3.Objects
