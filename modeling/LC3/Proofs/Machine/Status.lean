import LC3.Proofs.Computation
import LC3.Proofs.Machine.WordRange
import LC3.Proofs.Word

/-!
# The status register

Only results are written with a condition. `Results psr psr' ws` is what becomes of a status
register while the words `ws` are written as results: beside its condition nothing changes, and the
condition is the sign of the last of them. A step writes one result or none (`results_step`), and
steps hand the register on, so that this holds from whatever status on along all that is done to a
machine (`results_actions`).
-/

namespace LC3

/-! ## Conditions -/

namespace Condition

theorem getLsbD_store (c : Condition) (psr : Word) (i : Nat) :
    (c.store psr).getLsbD i = if i < 3 then c.bits.getLsbD i else psr.getLsbD i := by
  rw [store, BitVec.getLsbD_append]
  split
  · rfl
  · rw [BitVec.getLsbD_extractLsb', show 3 + (i - 3) = i by omega]
    by_cases hi : i < 16
    · rw [decide_eq_true (by omega), Bool.true_and]
    · rw [psr.getLsbD_of_ge i (by omega), Bool.and_false]

theorem ofStatus?_store (c : Condition) (psr : Word) : ofStatus? (c.store psr) = some c := by
  have hbits : (c.store psr).extractLsb' 0 3 = c.bits := by
    apply BitVec.eq_of_getLsbD_eq
    intro i hi
    rw [BitVec.getLsbD_extractLsb', Nat.zero_add, getLsbD_store, if_pos hi, decide_eq_true hi,
      Bool.true_and]
  rw [ofStatus?, hbits]
  cases c <;> rfl

end Condition

/-- Exactly one of the bits N, Z and P is set. -/
def OneFlag (psr : Word) : Prop :=
  [psr.getLsbD 2, psr.getLsbD 1, psr.getLsbD 0].count true = 1

theorem oneFlag_store (c : Condition) (psr : Word) : OneFlag (c.store psr) := by
  unfold OneFlag
  simp only [Condition.getLsbD_store, Nat.reduceLT, ↓reduceIte]
  cases c <;> decide

/-! ## Results -/

/-- A status register becomes another while words are written as results, the latest last. -/
structure Results (psr psr' : Word) (ws : List Word) : Prop where
  rest : ∀ i, 3 ≤ i → psr'.getLsbD i = psr.getLsbD i
  oneFlag : OneFlag psr → OneFlag psr'
  /-- Without results even a condition that makes no sense stays. -/
  same : ws = [] → psr' = psr
  latest : ∀ w ∈ ws.getLast?, (Condition.ofStatus? psr').map Condition.sign = some w.toInt.sign

namespace Results

variable {a b c psr : Word} {us ws : List Word}

theorem refl : Results psr psr [] :=
  ⟨fun _ _ => rfl, id, fun _ => rfl, by simp⟩

theorem store (w : Word) : Results psr ((Condition.ofWord w).store psr) [w] := by
  refine ⟨fun i hi => ?_, fun _ => oneFlag_store _ _, by simp, ?_⟩
  · rw [Condition.getLsbD_store, if_neg (by omega)]
  · simp [Condition.ofStatus?_store, Condition.sign_ofWord]

theorem trans (h : Results a b us) (h' : Results b c ws) : Results a c (us ++ ws) := by
  refine ⟨fun i hi => (h'.rest i hi).trans (h.rest i hi), h'.oneFlag ∘ h.oneFlag, ?_, ?_⟩
  · intro hnil
    obtain ⟨hu, hw⟩ := List.append_eq_nil_iff.mp hnil
    rw [h'.same hw, h.same hu]
  · intro w hw
    rw [List.getLast?_append] at hw
    cases hlast : ws.getLast? with
    | none =>
      rw [hlast, Option.none_or] at hw
      rw [h'.same (List.getLast?_eq_none_iff.mp hlast)]
      exact h.latest w hw
    | some v =>
      rw [hlast, Option.some_or] at hw
      exact h'.latest w (hlast ▸ hw)

end Results

/-! ## Steps -/

/-- The register to which an instruction writes its result. The return address of a call or a trap
is none. -/
def Instruction.destination? : Instruction → Option Reg
  | add dr _ _ | and dr _ _ | not dr _ | ld dr _ | ldi dr _ | ldr dr _ _ | lea dr _ => some dr
  | _ => none

namespace Machine

/-- The result of the next step: what its destination holds afterwards. -/
def nextResult? (m : Machine) : Option Word :=
  (decode m.nextWord).destination?.map m.step.get

theorem psr_result (m : Machine) (dr : Reg) (w : Word) : (m.result dr w).registers.psr =
    (Condition.ofWord ((m.result dr w).get dr)).store m.registers.psr := by
  have hw : (m.result dr w).get dr = w := (m.registers.get_set dr w dr).trans (if_pos rfl)
  rw [hw]
  rfl

theorem psr_loadFrom (m : Machine) (dr : Reg) (a : Word) : (m.loadFrom dr a).registers.psr =
    (Condition.ofWord ((m.loadFrom dr a).get dr)).store m.registers.psr := by
  rw [← m.registers_read a]
  exact psr_result _ dr _

theorem psr_execute (m : Machine) (i : Instruction) : (m.execute i).registers.psr =
    match i.destination? with
    | some dr => (Condition.ofWord ((m.execute i).get dr)).store m.registers.psr
    | none => m.registers.psr := by
  have load (m : Machine) (a : Word) : (m.read a).2.registers.psr = m.registers.psr := by
    rw [registers_read]
  have store (m : Machine) (a v : Word) : (m.write a v).registers.psr = m.registers.psr := by
    rw [registers_write]
  cases i with
  | add | and | not | lea => exact m.psr_result _ _
  | ld | ldr => exact m.psr_loadFrom _ _
  | ldi dr offset =>
    have h := psr_loadFrom (m.read (m.fromPC offset)).2 dr (m.read (m.fromPC offset)).1
    rwa [registers_read] at h
  | jsr | jsrr | rti | reserved => rfl
  | br n z p offset =>
    rw [execute]
    split <;> rfl
  | jmp base =>
    rw [execute]
    split <;> rfl
  | st | str => exact store m _ _
  | sti sr offset => exact (store _ _ _).trans (load m _)
  | trap vector => exact load (m.set linkRegister m.pc) _

/-- A step writes one result, or it leaves the status as it is. -/
theorem results_step (m : Machine) :
    Results m.registers.psr m.step.registers.psr m.nextResult?.toList := by
  have h : m.step.registers.psr = _ := m.fetch.psr_execute (decode m.nextWord)
  unfold nextResult?
  cases hd : (decode m.nextWord).destination? with
  | none =>
    rw [hd] at h
    rw [h]
    exact .refl
  | some dr =>
    rw [hd] at h
    rw [h]
    exact .store _

/-! ## Actions -/

/-- The machines fetch one after another, each with the status that the step before it left. -/
def HandOn (psr : Word) : List Machine → Word → Prop
  | [], psr' => psr' = psr
  | f :: fs, psr' => f.registers.psr = psr ∧ HandOn f.step.registers.psr fs psr'

section HandOn

variable {a b c : Word} {fs gs pre post : List Machine} {f : Machine}

theorem handOn_append : HandOn a (fs ++ gs) c ↔ ∃ b, HandOn a fs b ∧ HandOn b gs c := by
  induction fs generalizing a with
  | nil => simp [HandOn]
  | cons f fs ih => simp only [List.cons_append, HandOn, ih, and_assoc, exists_and_left]

theorem HandOn.results (h : HandOn a fs b) : Results a b (fs.filterMap nextResult?) := by
  induction fs generalizing a with
  | nil =>
    obtain rfl : b = a := h
    exact .refl
  | cons f fs ih =>
    obtain ⟨rfl, hrest⟩ := h
    rw [← List.singleton_append, List.filterMap_append]
    have hf : [f].filterMap nextResult? = f.nextResult?.toList := by
      cases hr : f.nextResult? <;> simp [hr]
    rw [hf]
    exact f.results_step.trans (ih hrest)

/-- The results up to the step of one of the machines. -/
theorem HandOn.at (h : HandOn a (pre ++ f :: post) b) :
    Results a f.step.registers.psr ((pre ++ [f]).filterMap nextResult?) := by
  obtain ⟨c, hpre, hf, -⟩ := handOn_append.mp h
  exact (handOn_append.mpr ⟨c, hpre, hf, rfl⟩ : HandOn a (pre ++ [f]) f.step.registers.psr).results

end HandOn

/-- On the budget: nothing but the steps of a run changes the status. -/
theorem handOn_advance (budget : Nat) (r : Run) : HandOn r.machine.registers.psr
    (r.fetches budget) (r.advance budget).machine.registers.psr := by
  induction budget generalizing r with
  | zero => rfl
  | succ budget ih =>
    unfold Run.fetches Run.advance
    split
    · rfl
    · exact ⟨rfl, ih r.next⟩

end Machine

/-- The action does not set the status register itself. -/
def Action.LeavesStatus : Action → Prop
  | setPSR _ | resetRegisters => False
  | _ => True

namespace Machine

variable (m : Machine)

theorem handOn_act {a : Action} (h : a.LeavesStatus) :
    HandOn m.registers.psr (m.actFetches a) (m.act a).registers.psr := by
  cases a with
  | push | poke | setPC | setIR | attachProbe | attachDevices => rfl
  | load p =>
    show (m.load p).registers.psr = _
    rw [load]
    split <;> rfl
  | write a v => exact congrArg Registers.psr (m.registers_write _ _)
  | setRegister n v =>
    show (m.act (.setRegister n v)).registers.psr = _
    rw [act]
    split
    · rename_i r hr
      obtain ⟨i, -, hset⟩ := bind_eq_ok.mp hr
      rw [← pure_eq_ok.mp hset]
      rfl
    · rfl
  | setPSR | resetRegisters => exact h.elim
  | step | stepCopy => exact ⟨rfl, rfl⟩
  | run budget => exact handOn_advance budget (Run.start m)

theorem handOn_actAll {actions : List Action} (h : ∀ a ∈ actions, a.LeavesStatus) :
    HandOn m.registers.psr (m.fetchesAll actions) (m.actAll actions).registers.psr := by
  induction actions generalizing m with
  | nil => rfl
  | cons a actions ih =>
    obtain ⟨ha, hrest⟩ := List.forall_mem_cons.mp h
    exact handOn_append.mpr ⟨_, m.handOn_act ha, ih (m.act a) hrest⟩

/-- Whatever is done to a machine beside setting its status, with whatever status it begins: behind
every step, and in the end, the status has become what the results so far make of it. The machine
that computes conditions from results before they are wrapped shows the same status. -/
theorem results_actions {actions : List Action} (h : ∀ a ∈ actions, a.LeavesStatus) :
    (∀ pre f post, m.fetchesAll actions = pre ++ f :: post →
      Results m.registers.psr f.step.registers.psr ((pre ++ [f]).filterMap nextResult?)) ∧
    Results m.registers.psr (m.actAll actions).registers.psr
      ((m.fetchesAll actions).filterMap nextResult?) ∧
    ∀ u : Unbounded.Machine, u.Represents m →
      (u.actAll actions).psr = (m.actAll actions).registers.psr.toNat := by
  have hall := m.handOn_actAll h
  refine ⟨fun pre f post he => HandOn.at (he ▸ hall), hall.results, fun u hu => ?_⟩
  obtain ⟨bus, -, hu⟩ := hu.actAll actions
  rw [hu]
  rfl

/-- A malformed `NOT` and a sum that wraps to zero, begun with all three flags set. -/
theorem results_actions_wrapped :
    let m := powerOn.act (.setPSR (-1))
    let actions : List Action := [.load ⟨0, [0x9040, 0x1021], ∅⟩, .run 2]
    let u := Unbounded.Machine.powerOn.actAll [.setPSR (-1)]
    (∀ a ∈ actions, a.LeavesStatus) ∧ Condition.ofStatus? m.registers.psr = none ∧
      (m.fetchesAll actions).filterMap nextResult? = [0xFFFF, 0] ∧
      (Condition.ofStatus? (m.actAll actions).registers.psr).map Condition.sign = some 0 ∧
      (u.actAll actions).psr = 0xFFFA := by
  intro m actions u
  have hleaves : ∀ a ∈ actions, a.LeavesStatus := by simp [actions, Action.LeavesStatus]
  have hwritten : (m.fetchesAll actions).filterMap nextResult? = [0xFFFF, 0] := by decide +kernel
  have hmachine : u.Represents m :=
    Unbounded.Machine.represents_powerOn.actAll [.setPSR (-1)]
  obtain ⟨-, hresults, hunbounded⟩ := m.results_actions hleaves
  have hstatus : (m.actAll actions).registers.psr = 0xFFFA := by decide +kernel
  have hsign := hresults.latest 0 (by rw [hwritten]; rfl)
  have hu : (u.actAll actions).psr = 0xFFFA := by
    rw [hunbounded u hmachine, hstatus]
    rfl
  exact ⟨hleaves, by decide +kernel, hwritten, hsign, hu⟩

end Machine

end LC3
