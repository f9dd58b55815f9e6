import LC3.Proofs.Machine.Console

/-!
# Polling the keyboard and the display

Before every step a run makes the display ready, and the keyboard if a character waits. In between,
reads of the keyboard's data and stores change the ready bits too. `Machine.noPhantom_step` shows
that the keyboard is never left ready without a character, as long as no program stores at its
status itself; then every instruction that polls a status register sees the truth
(`Machine.polls_truth`), also where it reads through a pointer.
-/

namespace LC3

/-- Nothing is attached elsewhere than at the registers of the keyboard and the display. -/
def Bus.OnlyDevices (u : Bus) : Prop :=
  ∀ a, a ∉ [keyboardStatus, keyboardData, displayStatus, displayData] →
    u.reader? a = none ∧ u.writer? a = none

/-! ## Ready bits -/

namespace Memory

/-- The ready bit of a status register. -/
def ready (m : Memory) (a : Word) : Bool :=
  (m.peek a).getLsbD 15

variable (m : Memory) (a b v : Word)

theorem ready_setReady : (m.setReady a).ready b = (decide (b = a) || m.ready b) := by
  have hbit : readyBit.getLsbD 15 = true := by decide
  unfold ready setReady
  rw [peek_poke]
  by_cases h : b = a
  · rw [if_pos h, BitVec.getLsbD_or, hbit, Bool.or_true, decide_eq_true h, Bool.true_or]
  · rw [if_neg h, decide_eq_false h, Bool.false_or]

theorem ready_clearReady : (m.clearReady a).ready b = (!decide (b = a) && m.ready b) := by
  have hbit : (~~~readyBit).getLsbD 15 = false := by decide
  unfold ready clearReady
  rw [peek_poke]
  by_cases h : b = a
  · rw [if_pos h, BitVec.getLsbD_and, hbit, Bool.and_false, decide_eq_true h]
    rfl
  · rw [if_neg h, decide_eq_false h]
    rfl

variable {a b} in
theorem ready_poke (h : b ≠ a) : (m.poke a v).ready b = m.ready b := by
  rw [ready, peek_poke, if_neg h]
  rfl

end Memory

namespace Machine

/-! ## What polling sees -/

/-- The keyboard is ready only if a character waits. -/
def NoPhantom (m : Machine) : Prop :=
  m.memory.ready keyboardStatus = true → m.console.input ≠ []

/-- The display is ready, and the keyboard just if a character waits. -/
structure Handshake (m : Machine) : Prop where
  display : m.memory.ready displayStatus = true
  keyboard : m.memory.ready keyboardStatus = true ↔ m.console.input ≠ []

/-- What was read at an address tells the truth about the devices while these characters wait. -/
structure Polled (input : List Char) (a w : Word) : Prop where
  display : a = displayStatus → w.getLsbD 15 = true
  keyboard : a = keyboardStatus → (w.getLsbD 15 = true ↔ input ≠ [])

/-- What is read at addresses, one after another. -/
def answers (m : Machine) : List Word → List (Word × Word)
  | [] => []
  | a :: as => (a, (m.read a).1) :: (m.read a).2.answers as

/-- The addresses that the next step reads over the bus, in order, with what it finds there. -/
def reads (m : Machine) : List (Word × Word) :=
  m.fetch.answers m.loads

/-- The next step does not store at the keyboard's status. -/
def KeepsStatus (m : Machine) : Prop :=
  ∀ v, m.stores? ≠ some (keyboardStatus, v)

variable {m : Machine}

theorem Handshake.noPhantom (h : m.Handshake) : m.NoPhantom :=
  h.keyboard.mp

theorem NoPhantom.congr {n : Machine} (h : m.NoPhantom) (hc : n.console = m.console)
    (hm : n.memory = m.memory) : n.NoPhantom := by
  unfold NoPhantom
  rw [hc, hm]
  exact h

theorem NoPhantom.makeReady (h : m.NoPhantom) : m.makeReady.Handshake := by
  have hne : displayStatus ≠ keyboardStatus := by decide
  have hin : m.makeReady.console = m.console := rfl
  unfold NoPhantom at h
  cases hi : m.console.input with
  | nil =>
    have hmem : m.makeReady.memory = m.memory.setReady displayStatus := if_pos (by rw [hi]; rfl)
    refine ⟨?_, ?_⟩
    · rw [hmem, Memory.ready_setReady, decide_eq_true rfl, Bool.true_or]
    · rw [hmem, hin, hi, Memory.ready_setReady, decide_eq_false hne.symm, Bool.false_or]
      exact ⟨fun hr => absurd hi (h hr), fun hr => absurd rfl hr⟩
  | cons c rest =>
    have hmem : m.makeReady.memory =
        (m.memory.setReady displayStatus).setReady keyboardStatus :=
      if_neg (by rw [hi]; exact Bool.false_ne_true)
    refine ⟨?_, ?_⟩
    · rw [hmem, Memory.ready_setReady, Memory.ready_setReady, decide_eq_true rfl, Bool.true_or,
        Bool.or_true]
    · rw [hmem, hin, hi, Memory.ready_setReady, decide_eq_true rfl, Bool.true_or]
      simp

/-! ## Accesses -/

theorem ready_deliver (m : Machine) :
    m.deliver.memory.ready keyboardStatus = !m.deliver.console.input.isEmpty ∧
      m.deliver.memory.ready displayStatus = m.memory.ready displayStatus := by
  have hdata : keyboardStatus ≠ keyboardData ∧ displayStatus ≠ keyboardData := by decide
  have hne : displayStatus ≠ keyboardStatus := by decide
  have hclear := m.memory.ready_clearReady keyboardStatus
  have h1 := hclear keyboardStatus
  have h2 := hclear displayStatus
  rw [decide_eq_true rfl, Bool.not_true, Bool.false_and] at h1
  rw [decide_eq_false hne, Bool.not_false, Bool.true_and] at h2
  unfold deliver
  split
  · rename_i hi
    dsimp only
    rw [h1, h2, hi]
    exact ⟨rfl, rfl⟩
  · rename_i c rest hi
    cases rest with
    | nil =>
      dsimp only
      rw [if_pos List.isEmpty_nil, Memory.ready_poke _ _ hdata.1, Memory.ready_poke _ _ hdata.2]
      exact ⟨h1, h2⟩
    | cons d rest =>
      dsimp only
      rw [if_neg (by simp), Memory.ready_setReady, Memory.ready_setReady, decide_eq_true rfl,
        decide_eq_false hne, Memory.ready_poke _ _ hdata.2]
      exact ⟨rfl, h2⟩

theorem noPhantom_read (hb : m.bus = .devices) (h : m.NoPhantom) (a : Word) :
    (m.read a).2.NoPhantom := by
  by_cases ha : a = keyboardData
  · subst ha
    rw [read_keyboardData hb]
    unfold NoPhantom
    rw [(ready_deliver _).1]
    intro hready hnil
    rw [hnil] at hready
    cases hready
  · obtain ⟨hc, hm⟩ := read_of_ne hb ha
    exact h.congr hc hm

theorem noPhantom_write (hb : m.bus = .devices) (h : m.NoPhantom) {a : Word}
    (ha : a ≠ keyboardStatus) (v : Word) : (m.write a v).NoPhantom := by
  have hkeep : (m.memory.poke a v).ready keyboardStatus = m.memory.ready keyboardStatus :=
    m.memory.ready_poke v ha.symm
  unfold NoPhantom
  by_cases hd : a = displayData
  · subst hd
    have hne : keyboardStatus ≠ displayStatus := by decide
    rw [write_displayData hb]
    unfold print
    dsimp only
    rw [Memory.ready_clearReady, decide_eq_false hne, Bool.not_false, Bool.true_and, hkeep]
    exact h
  · obtain ⟨hc, hm⟩ := write_of_ne hb hd v
    rw [hc, hm, hkeep]
    exact h

/-- A read that finds no delivered character leaves the handshake as it is. -/
theorem Handshake.read (hb : m.bus = .devices) (h : m.Handshake) {a : Word}
    (hp : 0x100 ≤ (m.read a).1.toNat) :
    (m.read a).2.Handshake ∧ (m.read a).2.console = m.console := by
  by_cases ha : a = keyboardData
  · subst ha
    cases hi : m.console.input with
    | nil =>
      have hi' : { m with touched := true }.console.input = [] := hi
      obtain ⟨hk, hd⟩ := ready_deliver { m with touched := true }
      have hc := console_deliver_nil hi'
      rw [read_keyboardData hb]
      refine ⟨⟨hd.trans h.display, ?_⟩, hc⟩
      rw [hk]
      cases { m with touched := true }.deliver.console.input <;> simp
    | cons c rest =>
      rw [fst_read_keyboardData hb hi] at hp
      exact absurd rfl (lowByte_ne (c := c) hp)
  · obtain ⟨hc, hm⟩ := read_of_ne hb ha
    exact ⟨⟨by rw [hm]; exact h.display, by rw [hm, hc]; exact h.keyboard⟩, hc⟩

theorem Handshake.polled (hb : m.bus = .devices) (h : m.Handshake) (a : Word) :
    Polled m.console.input a (m.read a).1 := by
  refine ⟨?_, ?_⟩
  · rintro rfl
    rw [fst_read_of_ne hb (by decide)]
    exact h.display
  · rintro rfl
    rw [fst_read_of_ne hb (by decide)]
    exact h.keyboard

/-! ## Steps -/

/-- An instruction reads no address, one, or a pointer and the address that it leads to. -/
theorem loads_cases (m : Machine) :
    m.loads = [] ∨ (∃ a, m.loads = [a]) ∨ ∃ a, m.loads = [a, (m.fetch.read a).1] := by
  unfold loads
  split
  · exact .inr (.inl ⟨_, rfl⟩)
  · exact .inr (.inl ⟨_, rfl⟩)
  · exact .inr (.inr ⟨_, rfl⟩)
  · exact .inr (.inl ⟨_, rfl⟩)
  · exact .inr (.inl ⟨_, rfl⟩)
  · exact .inl rfl

/-- All reads of a step tell the truth. Behind a pointer this holds although the pointer may be the
keyboard's data: a delivered character is no address of a status register. -/
theorem Handshake.polled_of_reads (hb : m.bus = .devices) (h : m.Handshake) {a w : Word}
    (hr : (a, w) ∈ m.reads) : Polled m.console.input a w := by
  have hbus : m.fetch.bus = .devices := hb
  have hf : m.fetch.Handshake := ⟨h.display, h.keyboard⟩
  have hfirst (b : Word) : Polled m.console.input b (m.fetch.read b).1 := hf.polled hbus b
  unfold reads at hr
  rcases m.loads_cases with hl | ⟨b, hl⟩ | ⟨b, hl⟩
  · rw [hl] at hr
    cases hr
  · rw [hl, answers, answers, List.mem_singleton] at hr
    cases hr
    exact hfirst a
  · rw [hl, answers, answers, answers, List.mem_cons, List.mem_singleton] at hr
    rcases hr with hr | hr
    · cases hr
      exact hfirst a
    · cases hr
      have hthen (hp : 0x100 ≤ (m.fetch.read b).1.toNat) :
          Polled m.console.input (m.fetch.read b).1
            ((m.fetch.read b).2.read (m.fetch.read b).1).1 := by
        obtain ⟨h', hc⟩ := hf.read hbus hp
        have hpolled := h'.polled ((m.fetch.bus_read b).trans hbus) (m.fetch.read b).1
        rwa [hc] at hpolled
      refine ⟨fun ha => ?_, fun ha => ?_⟩
      · exact (hthen (by rw [ha]; decide)).display ha
      · exact (hthen (by rw [ha]; decide)).keyboard ha

theorem noPhantom_step (hb : m.bus = .devices) (h : m.NoPhantom) (hs : m.KeepsStatus) :
    m.step.NoPhantom := by
  have hf : m.fetch.bus = .devices := hb
  have hfetch : m.fetch.NoPhantom := h
  have load (a : Word) : (m.fetch.read a).2.NoPhantom := noPhantom_read hf hfetch a
  have store {a v : Word} (ha : m.stores? = some (a, v)) : a ≠ keyboardStatus := by
    rintro rfl
    exact hs v ha
  unfold stores? at store
  unfold step
  cases hd : decode m.nextWord with
  | add | and | not | lea | jsr | jsrr | rti | reserved => exact hfetch
  | br n z p offset =>
    rw [execute]
    split <;> exact hfetch
  | jmp base =>
    rw [execute]
    split <;> exact hfetch
  | ld dr offset => exact load _
  | ldr dr base offset => exact load _
  | ldi dr offset => exact noPhantom_read ((m.fetch.bus_read _).trans hf) (load _) _
  | st sr offset => exact noPhantom_write hf hfetch (store (by rw [hd])) _
  | str sr base offset => exact noPhantom_write hf hfetch (store (by rw [hd])) _
  | sti sr offset =>
    have ha := store (v := m.get sr) (by rw [hd])
    exact noPhantom_write ((m.fetch.bus_read _).trans hf) (load _) ha _
  | trap vector =>
    exact noPhantom_read (m := m.fetch.set linkRegister m.fetch.pc) hf hfetch _

end Machine

/-! ## Runs -/

namespace Machine

/-- Each of the machines keeps the handshake, up to the first that stores at the keyboard's
status. -/
def HandshakeAlong : List Machine → Prop
  | [] => True
  | f :: fs => (f.bus = .devices ∧ f.Handshake) ∧ (f.KeepsStatus → HandshakeAlong fs)

theorem HandshakeAlong.append {fs gs : List Machine} (h : HandshakeAlong fs)
    (h' : (∀ f ∈ fs, f.KeepsStatus) → HandshakeAlong gs) : HandshakeAlong (fs ++ gs) := by
  induction fs with
  | nil => exact h' (by simp)
  | cons f fs ih =>
    refine ⟨h.1, fun hk => ih (h.2 hk) fun hks => h' ?_⟩
    exact List.forall_mem_cons.mpr ⟨hk, hks⟩

theorem HandshakeAlong.at {pre post : List Machine} {f : Machine}
    (h : HandshakeAlong (pre ++ f :: post)) (hs : ∀ g ∈ pre, g.KeepsStatus) :
    f.bus = .devices ∧ f.Handshake := by
  induction pre with
  | nil => exact h.1
  | cons g pre ih =>
    obtain ⟨hg, hpre⟩ := List.forall_mem_cons.mp hs
    exact ih (h.2 hg) hpre

/-- On the budget: the run makes the devices ready, and the step keeps off phantoms. -/
theorem handshake_advance {r : Run} (hb : r.machine.bus = .devices) (h : r.machine.NoPhantom)
    (budget : Nat) :
    HandshakeAlong (r.fetches budget) ∧
      ((∀ f ∈ r.fetches budget, f.KeepsStatus) → (r.advance budget).machine.NoPhantom) := by
  induction budget generalizing r with
  | zero => exact ⟨trivial, fun _ => h⟩
  | succ budget ih =>
    unfold Run.fetches Run.advance
    split
    · exact ⟨trivial, fun _ => h⟩
    · have hready : r.machine.makeReady.bus = .devices := hb
      have hshake := h.makeReady
      have hnext (hk : r.machine.makeReady.KeepsStatus) :=
        ih (r := r.next) ((bus_step _).trans hready) (noPhantom_step hready hshake.noPhantom hk)
      refine ⟨⟨⟨hready, hshake⟩, fun hk => (hnext hk).1⟩, fun hks => ?_⟩
      obtain ⟨hk, hks⟩ := List.forall_mem_cons.mp hks
      exact (hnext hk).2 hks

end Machine

/-! ## Actions -/

/-- The action runs the machine or queues characters. -/
def Action.Drives : Action → Prop
  | push _ | run _ => True
  | _ => False

theorem Bus.onlyDevices_devices : Bus.devices.OnlyDevices := by
  intro a ha
  simp only [List.mem_cons, List.not_mem_nil, or_false, not_or] at ha
  obtain ⟨h1, h2, h3, h4⟩ := ha
  rw [Machine.reader?_devices, Machine.writer?_devices, if_neg h2, if_neg (by simp [h1, h3, h4]),
    if_neg h4, if_neg (by simp [h1, h2, h3])]
  exact ⟨rfl, rfl⟩

namespace Machine

variable {m : Machine}

theorem bus_attachDevices_of_onlyDevices (h : m.bus.OnlyDevices) :
    m.attachDevices.bus = .devices := by
  have hsame (a : Word) : m.attachDevices.bus.reader? a = Bus.devices.reader? a ∧
      m.attachDevices.bus.writer? a = Bus.devices.writer? a := by
    rw [reader?_devices, writer?_devices]
    have ha := h a
    simp only [List.mem_cons, List.not_mem_nil, or_false, not_or] at ha
    simp only [attachDevices, Bus.attach]
    by_cases h1 : a = displayData
    · subst h1
      exact ⟨rfl, rfl⟩
    by_cases h2 : a = displayStatus
    · subst h2
      exact ⟨rfl, rfl⟩
    by_cases h3 : a = keyboardData
    · subst h3
      exact ⟨rfl, rfl⟩
    by_cases h4 : a = keyboardStatus
    · subst h4
      exact ⟨rfl, rfl⟩
    simp only [h1, h2, h3, h4, ↓reduceIte, or_self]
    exact ha ⟨h4, h3, h2, h1⟩
  exact congrArg₂ Bus.mk (funext fun a => (hsame a).1) (funext fun a => (hsame a).2)

theorem handshake_actions {actions : List Action} (hb : m.bus.OnlyDevices) (h : m.NoPhantom)
    (ha : ∀ a ∈ actions, a.Drives) : HandshakeAlong (m.fetchesAll actions) := by
  induction actions generalizing m with
  | nil => trivial
  | cons a actions ih =>
    obtain ⟨hd, hrest⟩ := List.forall_mem_cons.mp ha
    cases a with
    | push text =>
      refine ih (m := m.push text) hb (fun hr hnil => h hr ?_) hrest
      exact (List.append_eq_nil_iff.mp hnil).1
    | run budget =>
      have hs : (Run.start m).machine.bus = .devices := bus_attachDevices_of_onlyDevices hb
      obtain ⟨hrun, hend⟩ := handshake_advance (r := Run.start m) hs h budget
      refine hrun.append fun hks => ih (m := (m.run budget).machine) ?_ (hend hks) hrest
      rw [run, (Run.bus_advance budget _).trans hs]
      exact Bus.onlyDevices_devices
    | _ => cases hd

/-- On a machine with the keyboard and the display alone, whose keyboard is not ready without a
character, whatever is run and typed: as long as no step has stored at the keyboard's status, every
step fetches with the display ready, and with the keyboard ready just if a character waits. Its
instruction reads the same truth at the two status registers. -/
theorem polls_truth {actions : List Action} {before after : List Machine} {f : Machine}
    (hb : m.bus.OnlyDevices) (hk : m.NoPhantom) (ha : ∀ a ∈ actions, a.Drives)
    (hf : m.fetchesAll actions = before ++ f :: after) (hs : ∀ g ∈ before, g.KeepsStatus) :
    f.Handshake ∧ ∀ a w, (a, w) ∈ f.reads → Polled f.console.input a w := by
  have halong := handshake_actions hb hk ha
  rw [hf] at halong
  obtain ⟨hbus, hshake⟩ := halong.at hs
  exact ⟨hshake, fun a w hr => hshake.polled_of_reads hbus hr⟩

/-- An `LDI` that polls the keyboard, twice; a character is typed in between. -/
theorem polls_truth_typed :
    let m := powerOn.load ⟨0x3000, [0xA001, 0xA000, 0xFE00], ∅⟩
    let f := m.attachDevices.makeReady
    let g := (f.step.push "a").attachDevices.makeReady
    m.bus.OnlyDevices ∧ m.NoPhantom ∧
      m.fetchesAll [.run 1, .push "a", .run 1] = [f] ++ g :: [] ∧ f.KeepsStatus ∧
      g.Handshake ∧ ∀ a w, (a, w) ∈ g.reads → Polled g.console.input a w := by
  intro m f g
  have hb : m.bus.OnlyDevices := fun a _ => ⟨rfl, rfl⟩
  have hcells (a : Word) : m.memory.peek a = if a = 0x3002 then 0xFE00
      else if a = 0x3001 then 0xA000 else if a = 0x3000 then 0xA001 else 0 := by
    have hblank : Memory.blank.peek a = 0 := Vector.getElem_replicate _
    change (((Memory.blank.poke 0x3000 0xA001).poke 0x3001 0xA000).poke 0x3002 0xFE00).peek a = _
    rw [Memory.peek_poke, Memory.peek_poke, Memory.peek_poke, hblank]
  have hk : m.NoPhantom := by
    intro hr
    rw [Memory.ready, hcells] at hr
    exact absurd hr (by decide)
  have hf : m.fetchesAll [.run 1, .push "a", .run 1] = [f] ++ g :: [] := rfl
  have hs : f.KeepsStatus := by
    have hnext : f.nextWord = 0xA001 := by
      change (m.memory.setReady displayStatus).peek 0x3000 = 0xA001
      rw [Memory.setReady, Memory.peek_poke, if_neg (by decide), hcells]
      decide
    intro v
    rw [stores?, hnext]
    intro hstore
    cases hstore
  exact ⟨hb, hk, hf, hs, polls_truth hb hk (by simp [Action.Drives]) hf (by simpa using hs)⟩

end Machine

end LC3
