import LC3.Proofs.Machine.Console
import LC3.Session

/-!
# Step budgets

A run is one loop, wherever its budget is cut: going on with what is left of the budget, from the
machine that the first part leaves and with devices attached once more, is the run with the whole
budget. A run halts with the first word that is a `HALT` trap, told by its opcode and its low byte,
and never before. `Session.drive` is the loop as a session's stepper goes through it, so that the
lines of a trace are known to be all that tracing adds.
-/

namespace LC3

/-! ## The word that halts -/

open Machine (decode_of_opcode) in
theorem decode_eq_trap_iff {w : Word} {vector : BitVec 8} :
    decode w = .trap vector ↔ Architecture.opcode w = 15 ∧ w.extractLsb' 0 8 = vector := by
  refine ⟨fun h => ?_, fun ⟨ho, hv⟩ => ?_⟩
  · have hlt := (w.extractLsb' 12 4).isLt
    have hopcode : (w.extractLsb' 12 4).toNat = Architecture.opcode w := decode_of_opcode rfl
    unfold decode at h
    split at h
    case h_5 => split at h <;> cases h
    case h_16 =>
      -- The last case is what the others leave of sixteen.
      cases h
      exact ⟨by grind, rfl⟩
    all_goals cases h
  · simp only [decode, decode_of_opcode ho, hv]

/-- A `HALT` trap, told by its opcode and its low byte. The bits between them may be any. -/
def Word.IsHalt (w : Word) : Prop :=
  Architecture.opcode w = 15 ∧ Architecture.field w 0 8 = 0x25

theorem Executed.halts_eq_true {e : Executed} : e.halts = true ↔ e.word.IsHalt := by
  rw [halts, decide_eq_true_iff, decode_eq_trap_iff, ← BitVec.toNat_inj, Word.toNat_field]
  rfl

/-! ## Cutting a run -/

namespace Run

/-- The run, with steps that were executed before it. -/
def behind (r : Run) (earlier : List Executed) : Run :=
  { r with executed := r.executed ++ earlier }

/-- What was executed before has no influence. -/
theorem advance_behind (budget : Nat) (r : Run) (earlier : List Executed) :
    advance budget (r.behind earlier) = (advance budget r).behind earlier := by
  induction budget generalizing r with
  | zero => rfl
  | succ budget ih =>
    unfold advance
    rw [apply_ite (behind · earlier), ← ih]
    rfl

theorem advance_add (a b : Nat) (r : Run) : advance (a + b) r = advance b (advance a r) := by
  induction a generalizing r with
  | zero => rw [Nat.zero_add, advance]
  | succ a ih =>
    cases h : r.halted with
    | true => rw [advance_of_halted h, advance_of_halted h, advance_of_halted h]
    | false =>
      rw [Nat.succ_add, advance, advance, h]
      exact ih r.next

theorem steps_advance {budget : Nat} {r : Run} (h : (advance budget r).halted = false) :
    (advance budget r).steps = r.steps + budget := by
  induction budget generalizing r with
  | zero => rfl
  | succ budget ih =>
    unfold advance at h ⊢
    cases hr : r.halted with
    | true =>
      rw [hr, if_pos rfl, hr] at h
      cases h
    | false =>
      rw [hr, if_neg Bool.false_ne_true] at h
      rw [if_neg Bool.false_ne_true, ih h]
      show r.steps + 1 + budget = r.steps + (budget + 1)
      omega

/-- The run `r` is `first` and then, from the machine as it is there, `second`. -/
structure Continues (r first second : Run) : Prop where
  machine : r.machine = second.machine
  steps : r.steps = first.steps + second.steps
  halted : r.halted = second.halted
  executed : r.executed = second.executed ++ first.executed

end Run

namespace Machine

theorem attachDevices_of_bus {m n : Machine} (h : m.bus = n.attachDevices.bus) :
    m.attachDevices = m := by
  unfold attachDevices
  rw [h, Bus.attach_eq_self (a := keyboardStatus) rfl rfl,
    Bus.attach_eq_self (a := keyboardData) rfl rfl, Bus.attach_eq_self (a := displayStatus) rfl rfl,
    Bus.attach_eq_self (a := displayData) rfl rfl, ← h]

theorem run_add_of_halted {m : Machine} {a : Nat} (h : (m.run a).halted = true) (b : Nat) :
    m.run (a + b) = m.run a := by
  rw [run, Run.advance_add]
  exact Run.advance_of_halted h b

/-- The machine that a run leaves has its devices, so that a new run starts where the old one
stopped. -/
theorem run_add {m : Machine} {a : Nat} (h : (m.run a).halted = false) (b : Nat) :
    m.run (a + b) = ((m.run a).machine.run b).behind (m.run a).executed := by
  have hbus : (m.run a).machine.bus = m.attachDevices.bus := Run.bus_advance a _
  have hstart : (Run.start (m.run a).machine).behind (m.run a).executed = m.run a := by
    rw [Run.start, attachDevices_of_bus hbus, ← h]
    rfl
  calc m.run (a + b) = Run.advance b (m.run a) := Run.advance_add a b _
    _ = Run.advance b ((Run.start (m.run a).machine).behind (m.run a).executed) := by rw [hstart]
    _ = ((m.run a).machine.run b).behind (m.run a).executed := Run.advance_behind b _ _

/-- A budget `a + b`, spent at once or in two parts. -/
structure RunComposes (m : Machine) (a b : Nat) : Prop where
  /-- A run that has halted stays as it is, however much of the budget is left. -/
  stays : (m.run a).halted = true → m.run (a + b) = m.run a
  spends : (m.run a).halted = false → (m.run a).steps = a
  goesOn : (m.run a).halted = false →
    (m.run (a + b)).Continues (m.run a) ((m.run a).machine.run b)

theorem runComposes (m : Machine) (a b : Nat) : m.RunComposes a b := by
  refine ⟨fun h => run_add_of_halted h b, fun h => ?_, fun h => ?_⟩
  · exact (Run.steps_advance h).trans (Nat.zero_add a)
  · rw [run_add h b]
    refine ⟨rfl, ?_, rfl, rfl⟩
    show (_ ++ _ : List Executed).length = _
    rw [List.length_append, Nat.add_comm]
    rfl

end Machine

/-! ## Halting -/

/-- A run has halted just if its last word is a `HALT` trap, and no word before is one. -/
structure Run.HaltsExactly (r : Run) : Prop where
  /-- The log holds the words that were fetched. -/
  ir : ∀ e ∈ r.executed, e.after.ir = e.word
  /-- The machine is as the last step left it. -/
  last : ∀ e ∈ r.executed.head?, r.machine.registers = e.after
  halted : r.halted = true ↔ 0 < r.steps ∧ r.machine.registers.ir.IsHalt
  earlier : ∀ e ∈ r.executed.tail, ¬e.word.IsHalt

namespace Run

theorem haltsExactly_start (m : Machine) : (start m).HaltsExactly := by
  refine ⟨by simp [start], by simp [start], ?_, by simp [start]⟩
  exact iff_of_false Bool.false_ne_true fun h => absurd h.1 (Nat.lt_irrefl 0)

theorem HaltsExactly.not_isHalt {r : Run} (h : r.HaltsExactly) (hr : r.halted = false) :
    ∀ e ∈ r.executed, ¬e.word.IsHalt := by
  obtain ⟨m, executed, halted⟩ := r
  cases executed with
  | nil => simp
  | cons e es =>
    have hlast : m.registers = e.after := h.last e rfl
    have hir : e.after.ir = e.word := h.ir e List.mem_cons_self
    refine List.forall_mem_cons.mpr ⟨fun hhalt => ?_, h.earlier⟩
    rw [← hir, ← hlast] at hhalt
    have htrue := h.halted.mpr ⟨Nat.succ_pos _, hhalt⟩
    rw [hr] at htrue
    cases htrue

/-- A step keeps this up: the word it logs is the one in the instruction register, and none of those
before has halted the run. -/
theorem HaltsExactly.next {r : Run} (h : r.HaltsExactly) (hr : r.halted = false) :
    r.next.HaltsExactly := by
  have hir : r.next.machine.registers.ir = r.machine.makeReady.nextWord := Machine.ir_step _
  refine ⟨List.forall_mem_cons.mpr ⟨hir, h.ir⟩, ?_, ?_, h.not_isHalt hr⟩
  · intro e he
    cases he
    rfl
  · show r.machine.makeReady.stepLogged.1.halts = true ↔ _
    rw [Executed.halts_eq_true, hir]
    exact ⟨fun hw => ⟨Nat.succ_pos _, hw⟩, And.right⟩

theorem HaltsExactly.advance {r : Run} (h : r.HaltsExactly) (budget : Nat) :
    (advance budget r).HaltsExactly := by
  induction budget generalizing r with
  | zero => exact h
  | succ budget ih =>
    cases hr : r.halted with
    | true => rwa [advance_of_halted hr]
    | false =>
      rw [Run.advance, hr]
      exact ih (h.next hr)

end Run

/-! ## Traces -/

namespace Session

/-- Steps the session's machine until a `HALT` trap has executed or the budget is spent. Before
every step the devices are made ready. -/
def drive : Nat → Session → Session
  | 0, s => s
  | budget + 1, s =>
    let (e, next) := (s.setMachine s.machine.makeReady).step
    if e.halts then next else drive budget next

/-- The lines that a stepper keeps of what was executed, given the latest first. -/
def linesKept (tracing : Bool) (executed : List Executed) : List String :=
  if tracing then executed.reverse.map Executed.traceLine else []

/-- A session after a run: its machine, and what the stepper has kept. -/
def after (s : Session) (tracing : Bool) (r : Run) : Session :=
  { s with machine := r.machine, stepper := some ⟨tracing, linesKept tracing r.executed⟩ }

theorem run_eq (s : Session) (budget : Nat) (tracing : Bool) :
    s.run budget tracing = (s.machine.run budget, s.after tracing (s.machine.run budget)) :=
  rfl

/-- The stepper goes one step further as the run does. -/
theorem step_after (s : Session) (tracing : Bool) (r : Run) :
    ((s.after tracing r).setMachine r.machine.makeReady).step =
      (r.machine.makeReady.stepLogged.1, s.after tracing r.next) := by
  have hlines : linesKept tracing r.next.executed = if tracing then
        linesKept tracing r.executed ++ [r.machine.makeReady.stepLogged.1.traceLine]
      else linesKept tracing r.executed := by
    cases tracing with
    | false => rfl
    | true =>
      show (_ :: r.executed).reverse.map Executed.traceLine = _
      rw [List.reverse_cons, List.map_append]
      rfl
  rw [after, after, hlines]
  rfl

theorem drive_after (s : Session) (tracing : Bool) {r : Run} (hr : r.halted = false)
    (budget : Nat) : (s.after tracing r).drive budget = s.after tracing (r.advance budget) := by
  induction budget generalizing r with
  | zero => rfl
  | succ budget ih =>
    have hstep : ((s.after tracing r).setMachine (s.after tracing r).machine.makeReady).step =
      (r.machine.makeReady.stepLogged.1, s.after tracing r.next) := s.step_after tracing r
    rw [drive, hstep, Run.advance, hr]
    cases hnext : r.next.halted with
    | true =>
      have hhalts : r.machine.makeReady.stepLogged.1.halts = true := hnext
      rw [Run.advance_of_halted hnext]
      exact if_pos hhalts
    | false =>
      have hhalts : r.machine.makeReady.stepLogged.1.halts = false := hnext
      show (if _ then _ else _) = _
      rw [hhalts]
      exact ih hnext

/-- Tracing adds the lines of the trace, and nothing else depends on it. -/
structure TracesAside (s : Session) (budget : Nat) : Prop where
  run : (s.run budget true).1 = (s.run budget false).1
  /-- The sessions afterwards agree in all but their steppers. -/
  session : ∀ stepper, { (s.run budget true).2 with stepper } =
    { (s.run budget false).2 with stepper }
  /-- The session is the one in which a new stepper has gone through the loop. -/
  loop : ∀ tracing, (s.run budget tracing).2 = (s.attachStepper tracing).drive budget
  traced : (s.run budget true).2.trace =
    (s.run budget true).1.executed.reverse.map Executed.traceLine
  untraced : (s.run budget false).2.trace = []

theorem tracesAside (s : Session) (budget : Nat) : s.TracesAside budget := by
  refine ⟨rfl, fun _ => rfl, fun tracing => ?_, rfl, rfl⟩
  have hstart : s.attachStepper tracing = s.after tracing (.start s.machine) := by
    cases tracing <;> rfl
  rw [run_eq, hstart]
  exact (s.drive_after tracing rfl budget).symm

end Session

/-- Of every machine: a budget may be spent in two parts, for a run that has not halted when the
first part is spent goes on in the second as if it had never stopped; a run has halted just if its
last word is a `HALT` trap, malformed or not, and no word before is one; and in every session
tracing adds its lines to a run and changes nothing else. -/
theorem Machine.run_budget (m : Machine) :
    (∀ a b, m.RunComposes a b) ∧ (∀ budget, (m.run budget).HaltsExactly) ∧
      ∀ (s : Session) (budget : Nat), (s.setMachine m).TracesAside budget := by
  refine ⟨m.runComposes, fun budget => ?_, fun s budget => (s.setMachine m).tracesAside budget⟩
  exact (Run.haltsExactly_start m).advance budget

end LC3
