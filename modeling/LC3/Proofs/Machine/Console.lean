import LC3.Proofs.Machine.Action
import LC3.Proofs.Machine.Refinement

/-!
# The console

No character is lost, duplicated or reordered. `Machine.traffic` says which characters the next step
consumes and prints, from the accesses of its instruction alone: it consumes the first that waits if
it reads the keyboard's data, and prints if it stores at the display's data. `Machine.stepTraffic`
shows that this is what a step does, and `Machine.console_conserved` takes it to all sequences of
actions.
-/

namespace LC3

open Architecture (withReady)

/-- Characters that went through the console. -/
structure Traffic where
  consumed : List Char
  printed : List Char

namespace Traffic

/-- Nothing was consumed or printed. -/
def silent : Traffic :=
  ⟨[], []⟩

def append (t u : Traffic) : Traffic :=
  ⟨t.consumed ++ u.consumed, t.printed ++ u.printed⟩

/-- The characters that a store prints. -/
def ofStore (a v : Word) : List Char :=
  if a = displayData then [Char.ofNat (v.toNat % 256)] else []

end Traffic

theorem Bus.attach_eq_self {u : Bus} {a : Word} {r : Reader} {w : Writer}
    (hr : u.reader? a = some r) (hw : u.writer? a = some w) : u.attach a (some r) (some w) = u := by
  unfold Bus.attach
  congr 1 <;> funext b <;> split <;> simp_all

namespace Machine

/-! ## Accesses of the next step -/

/-- The addresses that the next step reads over the bus, in order. -/
def loads (m : Machine) : List Word :=
  match decode m.nextWord with
  | .ld _ offset | .sti _ offset => [m.fetch.fromPC offset]
  | .ldi _ offset => [m.fetch.fromPC offset, (m.fetch.read (m.fetch.fromPC offset)).1]
  | .ldr _ base offset => [m.fetch.fromBase base offset]
  | .trap vector => [vector.setWidth 16]
  | _ => []

/-- The address at which the next step stores over the bus, and the word it stores. -/
def stores? (m : Machine) : Option (Word × Word) :=
  match decode m.nextWord with
  | .st sr offset => some (m.fetch.fromPC offset, m.get sr)
  | .sti sr offset => some ((m.fetch.read (m.fetch.fromPC offset)).1, m.get sr)
  | .str sr base offset => some (m.fetch.fromBase base offset, m.get sr)
  | _ => none

/-- What goes through the console in the next step. -/
def traffic (m : Machine) : Traffic where
  consumed := if keyboardData ∈ m.loads then m.console.input.take 1 else []
  printed := m.stores?.elim [] fun (a, v) => Traffic.ofStore a v

/-! ## Effects on the console -/

/-- The waiting characters and the printed ones have changed by this traffic, after others were
queued. -/
structure Accounts (m m' : Machine) (pushed : List Char) (t : Traffic) : Prop where
  input : m.console.input ++ pushed = t.consumed ++ m'.console.input
  output : m'.console.output.toList = m.console.output.toList ++ t.printed

/-- The keyboard's registers after the last of these characters has been delivered. -/
structure Delivered (m m' : Machine) (cs : List Char) : Prop where
  data : ∀ c ∈ cs, m'.memory.peek keyboardData = lowByte c
  status : ∀ c ∈ cs, m'.memory.peek keyboardStatus =
    withReady (m.memory.peek keyboardStatus) !m'.console.input.isEmpty

variable {m m' m'' : Machine}

theorem Accounts.trans {ps qs : List Char} {t u : Traffic} (h : m.Accounts m' ps t)
    (h' : m'.Accounts m'' qs u) : m.Accounts m'' (ps ++ qs) (t.append u) := by
  refine ⟨?_, ?_⟩
  · rw [← List.append_assoc, h.input, List.append_assoc, h'.input, ← List.append_assoc]
    rfl
  · rw [h'.output, h.output, List.append_assoc]
    rfl

theorem Accounts.of_console (h : m'.console = m.console) : m.Accounts m' [] .silent := by
  refine ⟨?_, ?_⟩
  · rw [h, List.append_nil]
    rfl
  · rw [h]
    exact (List.append_nil _).symm

theorem Delivered.nil (m m' : Machine) : m.Delivered m' [] :=
  ⟨by simp, by simp⟩

theorem Accounts.congr {n n' : Machine} {ps : List Char} {t : Traffic} (h : m.Accounts m' ps t)
    (hc : n.console = m.console) (hc' : n'.console = m'.console) : n.Accounts n' ps t :=
  ⟨by rw [hc, hc', h.input], by rw [hc, hc', h.output]⟩

theorem Delivered.congr {n n' : Machine} {cs : List Char} (h : m.Delivered m' cs)
    (hm : n.memory = m.memory) (hc' : n'.console = m'.console) (hm' : n'.memory = m'.memory) :
    n.Delivered n' cs :=
  ⟨by rw [hm']; exact h.data, by rw [hm, hc', hm']; exact h.status⟩

/-- A read that does not reach the keyboard's data only marks that a device was touched. -/
theorem read_of_ne (hb : m.bus = .devices) {a : Word} (ha : a ≠ keyboardData) :
    (m.read a).2.console = m.console ∧ (m.read a).2.memory = m.memory := by
  have hr : m.bus.reader? a = _ := congrArg (Bus.reader? · a) hb
  rw [reader?_devices, if_neg ha] at hr
  unfold read
  rw [hr]
  split
  · exact ⟨rfl, rfl⟩
  · rename_i reader hs
    split at hs
    · cases hs
      exact ⟨rfl, rfl⟩
    · cases hs

theorem fst_read_of_ne (hb : m.bus = .devices) {a : Word} (ha : a ≠ keyboardData) :
    (m.read a).1 = m.memory.peek a := by
  have h := congrArg Prod.fst (m.view_read hb a).1
  exact h.trans (congrArg Prod.fst (if_neg ha))

theorem read_keyboardData (hb : m.bus = .devices) :
    m.read keyboardData =
      (({ m with touched := true }.deliver).memory.peek keyboardData,
        { m with touched := true }.deliver) := by
  have hr : m.bus.reader? keyboardData = _ := congrArg (Bus.reader? · keyboardData) hb
  rw [reader?_devices, if_pos rfl] at hr
  unfold read
  rw [hr]

theorem console_deliver_nil (h : m.console.input = []) : m.deliver.console = m.console := by
  unfold deliver
  rw [h]

theorem deliver_cons {c : Char} {rest : List Char} (h : m.console.input = c :: rest) :
    m.deliver.console = { m.console with input := rest } ∧
      m.deliver.memory.peek keyboardData = lowByte c ∧
      m.deliver.memory.peek keyboardStatus =
        withReady (m.memory.peek keyboardStatus) !rest.isEmpty := by
  have hne : keyboardStatus ≠ keyboardData := by decide
  have hmem := peek_delivered m.memory (lowByte c) rest.isEmpty
  unfold deliver
  rw [h]
  refine ⟨rfl, ?_, ?_⟩
  · exact (hmem keyboardData).trans (if_pos rfl)
  · exact (hmem keyboardStatus).trans ((if_neg hne).trans (if_pos rfl))

theorem lowByte_ne {c : Char} {a : Word} (ha : 0x100 ≤ a.toNat) : lowByte c ≠ a := by
  rintro rfl
  rw [lowByte, BitVec.toNat_ofNat] at ha
  omega

theorem get_read (hb : m.bus = .devices) (a : Word) (r : Reg) : (m.read a).2.get r = m.get r := by
  have h := congrArg (fun x => x.2.reg r) (m.view_read hb a).1
  exact h.trans (congrFun (m.view.reg_load a) r)

theorem fst_read_keyboardData (hb : m.bus = .devices) {c : Char} {rest : List Char}
    (h : m.console.input = c :: rest) : (m.read keyboardData).1 = lowByte c := by
  rw [read_keyboardData hb]
  exact (deliver_cons (m := { m with touched := true }) h).2.1

/-- The characters that a read at an address consumes. -/
def readConsumes (m : Machine) (a : Word) : List Char :=
  if a = keyboardData then m.console.input.take 1 else []

theorem read_accounts (hb : m.bus = .devices) (a : Word) :
    m.Accounts (m.read a).2 [] ⟨m.readConsumes a, []⟩ ∧
      m.Delivered (m.read a).2 (m.readConsumes a) := by
  unfold readConsumes
  by_cases ha : a = keyboardData
  · subst ha
    rw [if_pos rfl, read_keyboardData hb]
    cases hi : m.console.input with
    | nil =>
      have hi' : { m with touched := true }.console.input = [] := hi
      exact ⟨.of_console (console_deliver_nil hi'), .nil _ _⟩
    | cons c rest =>
      have hi' : { m with touched := true }.console.input = c :: rest := hi
      obtain ⟨hc, hd, hs⟩ := deliver_cons hi'
      refine ⟨⟨?_, ?_⟩, ⟨?_, ?_⟩⟩
      · rw [hc, hi, List.append_nil]
        rfl
      · rw [hc]
        exact (List.append_nil _).symm
      · rintro d hd'
        obtain rfl := List.mem_singleton.mp hd'
        exact hd
      · intro _ _
        rw [hc]
        exact hs
  · rw [if_neg ha]
    exact ⟨.of_console (read_of_ne hb ha).1, .nil _ _⟩

/-- A write that does not reach the display's data only stores. -/
theorem write_of_ne (hb : m.bus = .devices) {a : Word} (ha : a ≠ displayData) (v : Word) :
    (m.write a v).console = m.console ∧ (m.write a v).memory = m.memory.poke a v := by
  have hw : m.bus.writer? a = _ := congrArg (Bus.writer? · a) hb
  rw [writer?_devices, if_neg ha] at hw
  unfold write
  simp only [hw]
  split
  · exact ⟨rfl, rfl⟩
  · rename_i writer hs
    split at hs
    · cases hs
      exact ⟨rfl, rfl⟩
    · cases hs

theorem write_displayData (hb : m.bus = .devices) (v : Word) :
    m.write displayData v =
      { m with memory := m.memory.poke displayData v, touched := true }.print v := by
  have hw : m.bus.writer? displayData = _ := congrArg (Bus.writer? · displayData) hb
  rw [writer?_devices, if_pos rfl] at hw
  unfold write
  simp only [hw]

theorem write_accounts (hb : m.bus = .devices) (a v : Word) :
    m.Accounts (m.write a v) [] ⟨[], Traffic.ofStore a v⟩ := by
  by_cases ha : a = displayData
  · subst ha
    have hc : (m.write displayData v).console = m.console.print (Char.ofNat (v.toNat % 256)) := by
      rw [write_displayData hb]
      rfl
    refine ⟨?_, ?_⟩
    · rw [hc, List.append_nil]
      rfl
    · rw [hc, Traffic.ofStore, if_pos rfl]
      exact String.toList_push _
  · rw [Traffic.ofStore, if_neg ha]
    exact .of_console (write_of_ne hb ha v).1

/-! ## Steps -/

/-- Reading through a pointer consumes one character at most: a pointer that was delivered itself
does not lead to the keyboard again, and without a character none is delivered twice. -/
theorem readTwice_accounts (hb : m.bus = .devices) (a : Word) :
    let p := (m.read a).1
    let m' := (m.read a).2
    let cs := if keyboardData ∈ [a, p] then m.console.input.take 1 else []
    m.Accounts (m'.read p).2 [] ⟨cs, []⟩ ∧ m.Delivered (m'.read p).2 cs := by
  intro p m' cs
  have hb' : m'.bus = .devices := (m.bus_read a).trans hb
  obtain ⟨h1, h2⟩ := read_accounts hb a
  by_cases ha : a = keyboardData
  · have hcs : cs = m.readConsumes a := by simp [cs, readConsumes, ha]
    rw [hcs]
    have hm' : m' = { m with touched := true }.deliver := by
      simp only [m', ha, read_keyboardData hb]
    cases hi : m.console.input with
    | nil =>
      have hnil : { m with touched := true }.console.input = [] := hi
      have hc : m'.console = m.console := hm' ▸ console_deliver_nil hnil
      have hnone : m'.readConsumes p = [] ∧ m.readConsumes a = [] := by
        simp [readConsumes, hc, hi]
      rw [hnone.2]
      have h3 := (read_accounts hb' p).1
      rw [hnone.1] at h3
      exact ⟨h3.congr hc.symm rfl, .nil _ _⟩
    | cons c rest =>
      have hp : p = lowByte c := by
        simp only [p, ha, fst_read_keyboardData hb hi]
      obtain ⟨hc, hm⟩ := read_of_ne hb' (hp ▸ lowByte_ne (by decide) : p ≠ keyboardData)
      exact ⟨h1.congr rfl hc, h2.congr rfl hc hm⟩
  · obtain ⟨hc, hm⟩ := read_of_ne hb ha
    have hcs : cs = m'.readConsumes p := by
      have hc : m'.console = m.console := hc
      simp [cs, readConsumes, hc, Ne.symm ha, eq_comm]
    rw [hcs]
    obtain ⟨h3, h4⟩ := read_accounts hb' p
    exact ⟨h3.congr hc.symm rfl, h4.congr hm.symm rfl rfl⟩

/-- Storing through a pointer: a delivered pointer does not lead to a device. -/
theorem readWrite_accounts (hb : m.bus = .devices) (a v : Word) :
    let p := (m.read a).1
    let m' := (m.read a).2
    m.Accounts (m'.write p v) [] ⟨m.readConsumes a, Traffic.ofStore p v⟩ ∧
      m.Delivered (m'.write p v) (m.readConsumes a) := by
  intro p m'
  have hb' : m'.bus = .devices := (m.bus_read a).trans hb
  obtain ⟨h1, h2⟩ := read_accounts hb a
  refine ⟨?_, ?_⟩
  · have h := h1.trans (write_accounts hb' p v)
    rwa [Traffic.append, List.append_nil, List.append_nil, List.nil_append] at h
  · by_cases hn : m.readConsumes a = []
    · rw [hn]
      exact .nil _ _
    · have ha : a = keyboardData := by
        by_contra ha
        exact hn (if_neg ha)
      obtain ⟨c, rest, hi⟩ : ∃ c rest, m.console.input = c :: rest :=
        List.exists_cons_of_ne_nil fun hi => hn (by simp [readConsumes, hi])
      have hp : p = lowByte c := by
        simp only [p, ha, fst_read_keyboardData hb hi]
      have hne {d : Word} (hd : 0x100 ≤ d.toNat) : p ≠ d := hp ▸ lowByte_ne hd
      obtain ⟨hc, hm⟩ := write_of_ne hb' (hne (by decide) : p ≠ displayData) v
      refine ⟨fun d hd => ?_, fun d hd => ?_⟩
      · rw [hm, Memory.peek_poke, if_neg (hne (by decide)).symm]
        exact h2.data d hd
      · rw [hm, hc, Memory.peek_poke, if_neg (hne (by decide)).symm]
        exact h2.status d hd

/-- What goes through the console in a step, and what the keyboard shows afterwards. -/
theorem step_accounts (hb : m.bus = .devices) :
    m.Accounts m.step [] m.traffic ∧ m.Delivered m.step m.traffic.consumed := by
  have hf : m.fetch.bus = .devices := hb
  -- Fetching and writing results leave the console and the cells alone, so that every instruction
  -- comes down to its accesses.
  have silent {n : Machine} (h : n.console = m.console) :
      m.Accounts n [] .silent ∧ m.Delivered n [] := ⟨.of_console h, .nil _ _⟩
  have load (a : Word) : m.Accounts (m.fetch.read a).2 [] ⟨m.readConsumes a, []⟩ ∧
      m.Delivered (m.fetch.read a).2 (m.readConsumes a) := by
    obtain ⟨h1, h2⟩ := read_accounts hf a
    exact ⟨h1.congr rfl rfl, h2.congr rfl rfl rfl⟩
  have store (a v : Word) : m.Accounts (m.fetch.write a v) [] ⟨[], Traffic.ofStore a v⟩ ∧
      m.Delivered (m.fetch.write a v) [] :=
    ⟨(write_accounts hf a v).congr rfl rfl, .nil _ _⟩
  have hone (a : Word) : (if keyboardData ∈ [a] then m.console.input.take 1 else []) =
      m.readConsumes a := by
    simp only [readConsumes, List.mem_singleton, eq_comm]
  unfold step traffic loads stores?
  cases decode m.nextWord with
  | add dr sr source => exact silent rfl
  | and dr sr source => exact silent rfl
  | not dr sr => exact silent rfl
  | lea dr offset => exact silent rfl
  | br n z p offset =>
    rw [execute]
    split <;> exact silent rfl
  | jmp base =>
    rw [execute]
    split <;> exact silent rfl
  | jsr offset => exact silent rfl
  | jsrr base => exact silent rfl
  | ld dr offset =>
    simp only [hone]
    obtain ⟨h1, h2⟩ := load (m.fetch.fromPC offset)
    exact ⟨h1.congr rfl rfl, h2.congr rfl rfl rfl⟩
  | ldr dr base offset =>
    simp only [hone]
    obtain ⟨h1, h2⟩ := load (m.fetch.fromBase base offset)
    exact ⟨h1.congr rfl rfl, h2.congr rfl rfl rfl⟩
  | ldi dr offset =>
    obtain ⟨h1, h2⟩ := readTwice_accounts hf (m.fetch.fromPC offset)
    exact ⟨h1.congr rfl rfl, h2.congr rfl rfl rfl⟩
  | st sr offset => exact store _ _
  | str sr base offset => exact store _ _
  | sti sr offset =>
    simp only [hone]
    obtain ⟨h1, h2⟩ := readWrite_accounts hf (m.fetch.fromPC offset) (m.get sr)
    have hget := get_read hf (m.fetch.fromPC offset) sr
    rw [execute]
    simp only [hget]
    exact ⟨h1.congr rfl rfl, h2.congr rfl rfl rfl⟩
  | trap vector =>
    have hne : vector.setWidth 16 ≠ keyboardData := by
      intro h
      have hv := vector.isLt
      have := congrArg BitVec.toNat h
      rw [BitVec.toNat_setWidth, Nat.mod_eq_of_lt (by omega)] at this
      change vector.toNat = 0xFE02 at this
      omega
    have hb' : (m.fetch.set linkRegister m.fetch.pc).bus = .devices := hb
    rw [hone, readConsumes, if_neg hne]
    exact silent (read_of_ne hb' hne).1
  | rti => exact silent rfl
  | reserved => exact silent rfl

/-! ## The keyboard's status -/

theorem getLsbD_withReady (w : Word) (ready : Bool) :
    (withReady w ready).getLsbD 15 = ready ∧
      ∀ i < 15, (withReady w ready).getLsbD i = w.getLsbD i := by
  have hbit : ∀ i < 15, readyBit.getLsbD i = false := by decide
  have hclear (i : Nat) : (withReady w false).getLsbD i =
      (w.getLsbD i && (decide (i < 16) && !readyBit.getLsbD i)) := by
    rw [← clearReady_eq, BitVec.getLsbD_and, BitVec.getLsbD_not]
  have h15 : readyBit.getLsbD 15 = true := by decide
  have hkeep {i : Nat} (hi : i < 15) : (withReady w false).getLsbD i = w.getLsbD i := by
    rw [hclear, hbit i hi, Bool.not_false, decide_eq_true (by omega), Bool.and_true, Bool.and_true]
  cases ready with
  | false =>
    refine ⟨?_, fun i hi => hkeep hi⟩
    rw [hclear, h15, Bool.not_true, Bool.and_false, Bool.and_false]
  | true =>
    refine ⟨?_, fun i hi => ?_⟩
    · rw [← setReady_eq, BitVec.getLsbD_or, h15, Bool.or_true]
    · rw [← setReady_eq, BitVec.getLsbD_or, hbit i hi, Bool.or_false, hkeep hi]

/-- What a step does to the console. -/
structure StepsConsole (m : Machine) : Prop where
  /-- The consumed characters were the first that waited. -/
  input : m.console.input = m.traffic.consumed ++ m.step.console.input
  output : m.step.console.output.toList = m.console.output.toList ++ m.traffic.printed
  consumed_le : m.traffic.consumed.length ≤ 1
  printed_le : m.traffic.printed.length ≤ 1
  data : ∀ c ∈ m.traffic.consumed,
    m.step.memory.peek keyboardData = BitVec.ofNat 16 (c.toNat % 256)
  ready : ∀ c ∈ m.traffic.consumed,
    (m.step.memory.peek keyboardStatus).getLsbD 15 = !m.step.console.input.isEmpty
  status : ∀ c ∈ m.traffic.consumed, ∀ i < 15,
    (m.step.memory.peek keyboardStatus).getLsbD i = (m.memory.peek keyboardStatus).getLsbD i
  prints : ∀ c, m.traffic.printed = [c] ↔
    ∃ v, m.stores? = some (displayData, v) ∧ c = Char.ofNat (v.toNat % 256)

theorem consumed_le (m : Machine) : m.traffic.consumed.length ≤ 1 := by
  unfold traffic
  simp only
  split
  · exact List.length_take_le 1 _
  · exact Nat.zero_le 1

theorem length_ofStore (a v : Word) : (Traffic.ofStore a v).length ≤ 1 := by
  unfold Traffic.ofStore
  split <;> simp

theorem ofStore_eq_singleton {a v : Word} {c : Char} :
    Traffic.ofStore a v = [c] ↔ a = displayData ∧ c = Char.ofNat (v.toNat % 256) := by
  unfold Traffic.ofStore
  split <;> rename_i ha <;> simp [ha, eq_comm]

theorem stepsConsole (hb : m.bus = .devices) : m.StepsConsole := by
  obtain ⟨ha, hd⟩ := step_accounts hb
  have hin := ha.input
  rw [List.append_nil] at hin
  refine ⟨hin, ha.output, m.consumed_le, ?_, hd.data, fun c hc => ?_, fun c hc i hi => ?_,
    fun c => ?_⟩
  · unfold traffic
    cases m.stores? with
    | none => exact Nat.zero_le 1
    | some store => exact length_ofStore store.1 store.2
  · rw [hd.status c hc]
    exact (getLsbD_withReady _ _).1
  · rw [hd.status c hc]
    exact (getLsbD_withReady _ _).2 i hi
  · unfold traffic
    rcases m.stores? with _ | ⟨a, v⟩
    · simp
    · simp only [Option.elim_some, ofStore_eq_singleton, Option.some.injEq, Prod.mk.injEq]
      constructor
      · rintro ⟨rfl, hc⟩
        exact ⟨v, ⟨rfl, rfl⟩, hc⟩
      · rintro ⟨v, ⟨rfl, rfl⟩, hc⟩
        exact ⟨rfl, hc⟩

/-! ## Runs -/

theorem bus_attachDevices (hb : m.bus = .devices) : m.attachDevices.bus = .devices := by
  unfold attachDevices
  simp only [hb]
  rw [Bus.attach_eq_self (a := keyboardStatus) rfl rfl,
    Bus.attach_eq_self (a := keyboardData) rfl rfl, Bus.attach_eq_self (a := displayStatus) rfl rfl,
    Bus.attach_eq_self (a := displayData) rfl rfl]

end Machine

/-- What goes through the console while a run goes on. -/
def Run.traffic : Nat → Run → Traffic
  | 0, _ => .silent
  | budget + 1, r =>
    if r.halted then .silent else r.machine.makeReady.traffic.append (traffic budget r.next)

theorem Run.advance_accounts {r : Run} (hb : r.machine.bus = .devices) (budget : Nat) :
    r.machine.Accounts (advance budget r).machine [] (traffic budget r) := by
  -- On the budget: one step of the run, then the rest of it from there.
  induction budget generalizing r with
  | zero => exact .of_console rfl
  | succ budget ih =>
    unfold advance traffic
    split
    · exact .of_console rfl
    · have hready : r.machine.makeReady.bus = .devices := hb
      have hstep := (Machine.step_accounts hready).1
      exact (hstep.congr (n := r.machine) rfl rfl).trans
        (ih (r := r.next) ((Machine.bus_step _).trans hready))

/-! ## Actions -/

namespace Action

/-- The characters that an action queues. -/
def pushed : Action → List Char
  | push text => text.toList
  | _ => []

/-- Only probes take the place of the keyboard and the display. -/
def KeepsDevices : Action → Prop
  | attachProbe .. => False
  | _ => True

end Action

namespace Machine

/-- What goes through the console in an action. -/
def actTraffic (m : Machine) : Action → Traffic
  | .step => m.traffic
  | .stepCopy => m.copy.attachDevices.traffic
  | .run budget => (Run.start m).traffic budget
  | .write a v => ⟨[], Traffic.ofStore (Word.ofInt a) (Word.ofInt v)⟩
  | _ => .silent

/-- What goes through the console in actions, one after another. -/
def trafficAll (m : Machine) : List Action → Traffic
  | [] => .silent
  | a :: actions => (m.actTraffic a).append ((m.act a).trafficAll actions)

variable {m : Machine}

theorem act_accounts (hb : m.bus = .devices) {a : Action} (ha : a.KeepsDevices) :
    m.Accounts (m.act a) a.pushed (m.actTraffic a) ∧ (m.act a).bus = .devices := by
  have silent {n : Machine} (hc : n.console = m.console) (hn : n.bus = .devices) :
      m.Accounts n [] .silent ∧ n.bus = .devices := ⟨.of_console hc, hn⟩
  cases a with
  | load p => exact silent rfl hb
  | push text =>
    refine ⟨⟨rfl, ?_⟩, hb⟩
    exact (List.append_nil _).symm
  | poke a v => exact silent rfl hb
  | write a v => exact ⟨write_accounts hb _ _, (bus_write m _ _).trans hb⟩
  | setRegister n v =>
    rw [act]
    split <;> exact silent rfl hb
  | setPC v => exact silent rfl hb
  | setIR v => exact silent rfl hb
  | setPSR v => exact silent rfl hb
  | resetRegisters => exact silent rfl hb
  | attachProbe a reader writer => cases ha
  | attachDevices => exact silent rfl (bus_attachDevices hb)
  | step => exact ⟨(step_accounts hb).1, m.bus_step.trans hb⟩
  | stepCopy =>
    have hc : m.copy.attachDevices.bus = .devices := rfl
    exact ⟨(step_accounts hc).1.congr rfl rfl, (bus_step _).trans hc⟩
  | run budget =>
    have hs : (Run.start m).machine.bus = .devices := bus_attachDevices hb
    exact ⟨(Run.advance_accounts hs budget).congr rfl rfl, (Run.bus_advance _ _).trans hs⟩

/-- On a machine to which only the keyboard and the display are attached, a step does to the console
what its instruction says, and whatever is done to the machine, the characters that waited and those
that were queued are the consumed ones, in order, and the ones that still wait; what is printed only
ever grows at its end. -/
theorem console_conserved (hb : m.bus = .devices) :
    m.StepsConsole ∧ ∀ actions : List Action, (∀ a ∈ actions, a.KeepsDevices) →
      m.Accounts (m.actAll actions) (actions.flatMap Action.pushed) (m.trafficAll actions) := by
  refine ⟨stepsConsole hb, fun actions => ?_⟩
  induction actions generalizing m with
  | nil => exact fun _ => .of_console rfl
  | cons a actions ih =>
    intro hk
    obtain ⟨h1, hbus⟩ := act_accounts hb (hk a (by simp))
    exact h1.trans (ih hbus fun b hb' => hk b (by simp [hb']))

/-- An `LDI` whose pointer is the keyboard's data, in a run and after more was typed. -/
theorem console_conserved_pointer :
    let m := (powerOn.attachDevices.load ⟨0x3000, [0xA000, 0xFE02, 0xB3FE], ∅⟩).push "hi"
    let actions : List Action := [.step, .push "!", .poke 0xFE00 (-1), .run 2]
    m.bus = .devices ∧ (∀ a ∈ actions, a.KeepsDevices) ∧ m.StepsConsole ∧
      m.Accounts (m.actAll actions) ['!'] (m.trafficAll actions) := by
  intro m actions
  have hk : ∀ a ∈ actions, a.KeepsDevices := by simp [actions, Action.KeepsDevices]
  have h := console_conserved (m := m) rfl
  exact ⟨rfl, hk, h.1, h.2 actions hk⟩

end Machine

end LC3
