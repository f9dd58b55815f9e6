import LC3.Machine.Step
import LC3.Proofs.Listing.Encoding
import LC3.Proofs.Memory
import Std.Data.String.ToInt

/-!
# Shown targets

A listing shows the target of a jump, load or store, which it finds by itself from the word and
where it stands. `usedAddress?` is what the machine makes of the same word, seen from outside: where
it goes on, what it loads, or what it accesses first. The two are the same address, also where it
wraps around, and a name is shown just if a symbol is congruent to it (`shown_target_is_used`).
-/

namespace LC3

/-! ## What a step uses -/

/-- A branch is taken if a condition that it tests is set. -/
def Instruction.isTaken (psr : Word) : Instruction → Bool
  | br n z p _ => n && psr.getLsbD 2 || z && psr.getLsbD 1 || p && psr.getLsbD 0
  | _ => false

def Access.address : Access → Word
  | read a => a
  | write a _ => a

namespace Machine

/-- The machine with probes at all addresses, which note every access of an instruction. -/
def probed (m : Machine) : Machine :=
  { m with
    bus := ⟨fun _ => some (.probe fun _ => 0), fun _ => some .probe⟩
    accesses := [] }

/-- The address that the next step uses, if its instruction is relative to the program counter:
where it jumps to, what it puts into a register, or what it reads or writes first. A branch that is
not taken uses none. -/
def usedAddress? (m : Machine) : Option Word :=
  match decode m.nextWord with
  | .br n z p offset =>
    if (Instruction.br n z p offset).isTaken m.registers.psr then some m.step.pc else none
  | .jsr _ => some m.step.pc
  | .lea dr _ => some (m.step.get dr)
  | .ld _ _ | .ldi _ _ | .st _ _ | .sti _ _ => m.probed.step.accesses.head?.map Access.address
  | _ => none

variable (m : Machine)

theorem fromPC_fetch {n : Nat} (offset : BitVec n) :
    m.fetch.fromPC offset = Word.ofInt (m.pc.toNat + 1 + offset.toInt) := by
  rw [← Listing.ofInt_target, Word.ofInt_toNat]
  rfl

theorem isTaken_eq_false (n z p : Bool) (offset : BitVec 9) (psr : Word) :
    (Instruction.br n z p offset).testedBits &&& psr.extractLsb' 0 3 = 0 ↔
      (Instruction.br n z p offset).isTaken psr = false := by
  have hbits : psr.extractLsb' 0 3 = BitVec.ofBool (psr.getLsbD 2) ++
      BitVec.ofBool (psr.getLsbD 1) ++ BitVec.ofBool (psr.getLsbD 0) := by
    refine BitVec.eq_of_getLsbD_eq fun i hi => ?_
    simp only [BitVec.getLsbD_extractLsb', BitVec.getLsbD_append, BitVec.getLsbD_ofBool]
    obtain rfl | rfl | rfl : i = 0 ∨ i = 1 ∨ i = 2 := by omega
    all_goals simp
  rw [hbits, Instruction.testedBits, Instruction.isTaken]
  generalize psr.getLsbD 2 = n', psr.getLsbD 1 = z', psr.getLsbD 0 = p'
  revert n z p n' z' p'
  decide

/-- An instruction that reaches `d` cells further uses the cell there, unless it is a branch that is
not taken. -/
theorem usedAddress?_eq {d : Int} (h : (decode m.nextWord).reach? = some d) :
    m.usedAddress? = some (Word.ofInt (m.pc.toNat + 1 + d)) ∨
      m.usedAddress? = none ∧ ∃ n z p offset, decode m.nextWord = .br n z p offset ∧
        (decode m.nextWord).isTaken m.registers.psr = false := by
  have hstep : m.step = m.fetch.execute (decode m.nextWord) := rfl
  have hprobed : m.probed.step = m.probed.fetch.execute (decode m.nextWord) := rfl
  unfold usedAddress?
  cases hd : decode m.nextWord with
  | br n z p offset =>
    rw [hd] at h hstep
    simp only
    split
    · rename_i htaken
      have hne : ¬(Instruction.br n z p offset).testedBits &&&
          m.fetch.registers.psr.extractLsb' 0 3 = 0 := by
        rw [isTaken_eq_false]
        exact ne_false_of_eq_true htaken
      rw [Instruction.reach?] at h
      split at h
      · cases h
        refine .inl (congrArg some ?_)
        rw [hstep, execute, if_neg hne]
        exact m.fromPC_fetch offset
      · cases h
    · rename_i htaken
      exact .inr ⟨rfl, n, z, p, offset, rfl, by simpa using htaken⟩
  | jsr offset =>
    rw [hd] at h hstep
    cases h
    refine .inl (congrArg some ?_)
    rw [hstep]
    exact m.fromPC_fetch offset
  | lea dr offset =>
    rw [hd] at h hstep
    cases h
    refine .inl (congrArg some ?_)
    rw [hstep, ← fromPC_fetch]
    exact (Registers.get_set _ dr _ dr).trans (if_pos rfl)
  | ld r offset | ldi r offset | st r offset | sti r offset =>
    rw [hd] at h hprobed
    cases h
    left
    rw [hprobed]
    exact congrArg some (m.probed.fromPC_fetch offset)
  | _ =>
    rw [hd] at h
    cases h

end Machine

/-! ## What a listing shows -/

namespace Listing

/-- What is shown of an instruction before its target. -/
def lead : Instruction → String
  | .br n z p _ => "BR" ++ conditions n z p ++ " "
  | .jsr _ => "JSR "
  | .ld r _ => "LD " ++ register r ++ ", "
  | .ldi r _ => "LDI " ++ register r ++ ", "
  | .lea r _ => "LEA " ++ register r ++ ", "
  | .st r _ => "ST " ++ register r ++ ", "
  | .sti r _ => "STI " ++ register r ++ ", "
  | _ => ""

/-- The name of a cell, or else how far it is away. -/
def shownTarget (symbols : SymbolTable) (a : Word) (d : Int) : String :=
  (symbols.nameOf? a).getD ("#" ++ toString d)

theorem target_eq (symbols : SymbolTable) (pc : Word) {n : Nat} (offset : BitVec n) :
    target symbols (some pc) offset =
      shownTarget symbols (Word.ofInt (pc.toNat + 1 + offset.toInt)) offset.toInt := by
  rw [← ofInt_target, Word.ofInt_toNat]
  rfl

theorem instruction_eq_lead {i : Instruction} {d : Int} (h : i.reach? = some d)
    (symbols : SymbolTable) (pc : Word) : instruction symbols (some pc) i =
      lead i ++ shownTarget symbols (Word.ofInt (pc.toNat + 1 + d)) d := by
  cases i with
  | br n z p offset =>
    rw [Instruction.reach?] at h
    split at h
    · cases h
      rw [instruction, command, target_eq, String.intercalate_singleton]
      rfl
    · cases h
  | jsr offset =>
    cases h
    rw [instruction, command, target_eq, String.intercalate_singleton]
    rfl
  | ld r offset | ldi r offset | lea r offset | st r offset | sti r offset =>
    cases h
    rw [instruction, command, target_eq, String.intercalate_cons_cons,
      String.intercalate_singleton, ← String.append_assoc, ← String.append_assoc]
    rfl
  | _ => cases h

/-- What an operand tells about the address `a` behind an instruction at `pc`: it is the least name
that is congruent to it, or the distance to it, and then there is no such name. -/
structure ShowsAddress (symbols : SymbolTable) (pc : Word) (operand : String) (a : Word) :
    Prop where
  form : operand.toList.head? ≠ some '#' ∨ ∃ k : Int, operand = "#" ++ toString k
  name : operand.toList.head? ≠ some '#' →
    (∃ v, symbols[operand]? = some v ∧ v % 0x10000 = a.toNat) ∧
      ∀ (other : String) (v : Int), symbols[other]? = some v → v % 0x10000 = a.toNat →
        operand ≤ other
  offset : ∀ k : Int, operand = "#" ++ toString k →
    (a.toNat : Int) = (pc.toNat + 1 + k) % 0x10000 ∧
      ∀ (other : String) (v : Int), symbols[other]? = some v → v % 0x10000 ≠ a.toNat

theorem showsAddress_shownTarget {symbols : SymbolTable}
    (hnames : ∀ (name : String) (v : Int), symbols[name]? = some v → name.toList.head? ≠ some '#')
    (pc : Word) (d : Int) : ShowsAddress symbols pc
      (shownTarget symbols (Word.ofInt (pc.toNat + 1 + d)) d) (Word.ofInt (pc.toNat + 1 + d)) := by
  have hhash (k : Int) : ("#" ++ toString k).toList.head? = some '#' := by
    rw [String.toList_append]
    rfl
  unfold shownTarget
  cases hn : symbols.nameOf? (Word.ofInt (pc.toNat + 1 + d)) with
  | some name =>
    obtain ⟨v, hv, he, hle⟩ := SymbolTable.nameOf?_eq_some.mp hn
    have hname := hnames name v hv
    refine ⟨.inl hname, fun _ => ⟨⟨v, hv, Word.ofInt_eq_iff.mp he⟩, fun y u hu he' => ?_⟩, ?_⟩
    · exact hle y u hu (Word.ofInt_eq_iff.mpr he')
    · rintro k rfl
      exact absurd (hhash k) hname
  | none =>
    refine ⟨.inr ⟨d, rfl⟩, fun hne => absurd (hhash d) hne, fun k hk => ?_⟩
    obtain rfl : d = k := Int.repr_injective (String.append_right_inj _ |>.mp hk)
    refine ⟨(Word.ofInt_eq_iff.mp rfl).symm, fun y u hu he => ?_⟩
    exact SymbolTable.nameOf?_eq_none hn hu (Word.ofInt_eq_iff.mpr he)

end Listing

theorem exists_reach? {i : Instruction} (hmode : i.mode = .pcOffset)
    (hn : Listing.neverTaken i = false) : ∃ d, i.reach? = some d := by
  cases i with
  | br n z p offset =>
    have htests : (n || z || p) = true := Bool.not_inj hn
    exact ⟨offset.toInt, if_pos htests⟩
  | jsr | ld | ldi | lea | st | sti => exact ⟨_, rfl⟩
  | _ => cases hmode

/-- What is shown is what executes. Of a word relative to the program counter that is shown as an
instruction, the operand shown for its target tells the address that the next step uses, whatever
the symbols are and wherever it stands. Only a branch that is not taken uses none. -/
theorem shown_target_is_used (m : Machine) {symbols : SymbolTable}
    (hnames : ∀ (name : String) (v : Int), symbols[name]? = some v → name.toList.head? ≠ some '#')
    (hmode : (decode m.nextWord).mode = .pcOffset) (hw : Listing.IsWritten m.nextWord) :
    ∃ operand, Listing.word symbols (some m.pc) m.nextWord =
        Listing.lead (decode m.nextWord) ++ operand ∧
      (∀ a, m.usedAddress? = some a → Listing.ShowsAddress symbols m.pc operand a) ∧
      (m.usedAddress? = none → ∃ n z p offset, decode m.nextWord = .br n z p offset ∧
        (decode m.nextWord).isTaken m.registers.psr = false) := by
  obtain ⟨d, hd⟩ := exists_reach? hmode hw.2
  refine ⟨_, (Listing.word_of_isWritten hw).trans (Listing.instruction_eq_lead hd symbols m.pc),
    fun a ha => ?_, fun hnone => ?_⟩
  · rcases m.usedAddress?_eq hd with hused | ⟨hnone, -⟩
    · rw [hused] at ha
      cases ha
      exact Listing.showsAddress_shownTarget hnames m.pc d
    · rw [hnone] at ha
      cases ha
  · rcases m.usedAddress?_eq hd with hused | ⟨-, hstays⟩
    · rw [hused] at hnone
      cases hnone
    · exact hstays

/-- A load at the last address, which wraps around to a cell with three names. -/
theorem shown_target_is_used_wrapped :
    let m := Machine.powerOn.load ⟨0xFFFF, [0x2002], ∅⟩
    let symbols := SymbolTable.ofList [("START", 2), ("BACK", -0xFFFE), ("FAR", 0x10002)]
    Listing.word symbols (some m.pc) m.nextWord = "LD R0, BACK" ∧ m.usedAddress? = some 2 ∧
      Listing.ShowsAddress symbols m.pc "BACK" 2 := by
  intro m symbols
  have hnext : m.nextWord = 0x2002 := by
    show (Memory.poke _ _ _).peek _ = _
    rw [Memory.peek_poke]
    rfl
  have hdecode : decode m.nextWord = .ld 0 2 := by
    rw [hnext]
    decide
  have hnames : ∀ (name : String) (v : Int), symbols[name]? = some v →
      name.toList.head? ≠ some '#' := by
    intro name v hv
    have hmem := SymbolTable.mem_bindings.mpr hv
    rw [show symbols.bindings = [("BACK", -0xFFFE), ("FAR", 0x10002), ("START", 2)] by decide]
      at hmem
    simp only [List.mem_cons, Prod.mk.injEq, List.not_mem_nil, or_false] at hmem
    rcases hmem with ⟨rfl, -⟩ | ⟨rfl, -⟩ | ⟨rfl, -⟩ <;> decide
  have hshown : Listing.word symbols (some m.pc) m.nextWord = "LD R0, BACK" := by
    rw [hnext]
    decide
  have hpc : m.pc = 0xFFFF := by decide
  have hreach : (decode m.nextWord).reach? = some 2 := by
    rw [hdecode]
    rfl
  have hused : m.usedAddress? = some 2 := by
    obtain hused | ⟨-, n, z, p, offset, hbranch, -⟩ := m.usedAddress?_eq hreach
    · rw [hused, hpc]
      decide
    · rw [hdecode] at hbranch
      cases hbranch
  obtain ⟨operand, hword, htells, -⟩ := shown_target_is_used m hnames (by rw [hdecode]; rfl)
    (by rw [hnext]; decide)
  have hoperand : operand = "BACK" := by
    rw [hshown, hdecode] at hword
    exact (String.append_right_inj (Listing.lead (.ld 0 2))).mp hword.symm
  exact ⟨hshown, hused, hoperand ▸ htells 2 hused⟩

end LC3
