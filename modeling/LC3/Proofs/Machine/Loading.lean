import LC3.Machine
import LC3.Proofs.Instruction.Format
import LC3.Proofs.Memory
import LC3.Proofs.SymbolTable

/-!
# Loading programs

`Program.Loaded` says what a machine is after a program was loaded: which word each cell holds,
where the machine goes on, and that nothing else has changed. A program may have any integers and be
longer than memory, so that several of its words belong to one cell. `loaded_iff` shows that this
describes one machine, the one that `Machine.load` gives.
-/

namespace LC3

attribute [ext] Registers Machine

namespace Program

/-- Counted from the origin on and wrapped, word `i` belongs to the cell. -/
def Covers (p : Program) (i : Nat) (a : Word) : Prop :=
  (p.orig + i) % 0x10000 = a.toNat

/-- The machine `m'` is `m` with the program loaded. -/
structure Loaded (p : Program) (m m' : Machine) : Prop where
  /-- Of the words that belong to a cell it holds the last, as far as a word goes. -/
  last : ∀ (a : Word) (i : Nat) (w : Int), p.code[i]? = some w → p.Covers i a →
    (∀ j, i < j → j < p.size → ¬p.Covers j a) → ((m'.memory.peek a).toNat : Int) = w % 0x10000
  rest : ∀ a : Word, (∀ i < p.size, ¬p.Covers i a) → m'.memory.peek a = m.memory.peek a
  /-- A symbol of the program hides an older one of its name. -/
  symbol : ∀ name : String, m'.symbols[name]? = p.symbols[name]?.or m.symbols[name]?
  pc : (m'.registers.pc.toNat : Int) =
    if p.code = [] then (m.registers.pc.toNat : Int) else p.orig % 0x10000
  general : m'.registers.general = m.registers.general
  ir : m'.registers.ir = m.registers.ir
  psr : m'.registers.psr = m.registers.psr
  console : m'.console = m.console
  depth : m'.depth = m.depth
  touched : m'.touched = m.touched
  bus : m'.bus = m.bus
  accesses : m'.accesses = m.accesses

variable {p : Program} {m m' : Machine}

theorem covers_iff {i : Nat} {a : Word} :
    p.Covers i a ↔ Word.ofInt p.orig + BitVec.ofNat 16 i = a := by
  have hadd : Word.ofInt p.orig + BitVec.ofNat 16 i = Word.ofInt (p.orig + i) := by
    rw [Word.ofInt, Word.ofInt, BitVec.ofInt_add, BitVec.ofInt_natCast]
  rw [hadd, Word.ofInt_eq_iff, Covers]

/-- Each cell has a last word that belongs to it, or none. -/
theorem peek_load (p : Program) (m : Machine) (a : Word) :
    (∃ i w, p.code[i]? = some w ∧ p.Covers i a ∧ (∀ j, i < j → j < p.size → ¬p.Covers j a) ∧
        (m.load p).memory.peek a = Word.ofInt w) ∨
      (∀ i < p.size, ¬p.Covers i a) ∧ (m.load p).memory.peek a = m.memory.peek a := by
  have h := Memory.peek_load_last m.memory (Word.ofInt p.orig) (p.code.map Word.ofInt) a
  simp only [List.length_map, Ne, ← covers_iff] at h
  rcases h with ⟨i, v, hv, hi, hlast, hpeek⟩ | hnone
  · rw [List.getElem?_map, Option.map_eq_some_iff] at hv
    obtain ⟨w, hw, rfl⟩ := hv
    exact .inl ⟨i, w, hw, hi, hlast, hpeek⟩
  · exact .inr hnone

theorem registers_load (p : Program) (m : Machine) :
    (m.load p).registers =
      if p.code = [] then m.registers else { m.registers with pc := Word.ofInt p.orig } := by
  simp only [Machine.load, List.isEmpty_iff]

theorem loaded_load (p : Program) (m : Machine) : p.Loaded m (m.load p) where
  last a i w hw hi hlast := by
    rcases peek_load p m a with ⟨k, v, hv, hk, hklast, hpeek⟩ | ⟨hnone, -⟩
    · -- Both are the last word of the cell.
      have hki : k = i := by
        have hisize := (List.getElem?_eq_some_iff.mp hw).1
        have hksize := (List.getElem?_eq_some_iff.mp hv).1
        rcases Nat.lt_trichotomy i k with hlt | heq | hgt
        · exact absurd hk (hlast k hlt hksize)
        · exact heq.symm
        · exact absurd hi (hklast i hgt hisize)
      rw [hki, hw, Option.some.injEq] at hv
      rw [hpeek, hv, Word.toNat_ofInt]
    · exact absurd hi (hnone i (List.getElem?_eq_some_iff.mp hw).1)
  rest a ha := by
    rcases peek_load p m a with ⟨i, w, hw, hi, -⟩ | ⟨-, hpeek⟩
    · exact absurd hi (ha i (List.getElem?_eq_some_iff.mp hw).1)
    · exact hpeek
  symbol name := SymbolTable.getElem?_override m.symbols p.symbols name
  pc := by
    rw [registers_load]
    split
    · rfl
    · exact Word.toNat_ofInt p.orig
  general := by rw [registers_load]; split <;> rfl
  ir := by rw [registers_load]; split <;> rfl
  psr := by rw [registers_load]; split <;> rfl
  console := rfl
  depth := rfl
  touched := rfl
  bus := rfl
  accesses := rfl

theorem Loaded.unique {m₁ m₂ : Machine} (h₁ : p.Loaded m m₁) (h₂ : p.Loaded m m₂) : m₁ = m₂ := by
  have hmemory : m₁.memory = m₂.memory := by
    refine Memory.ext_peek fun a => ?_
    rcases peek_load p m a with ⟨i, w, hw, hi, hlast, -⟩ | ⟨hnone, -⟩
    · have hsame := (h₁.last a i w hw hi hlast).trans (h₂.last a i w hw hi hlast).symm
      exact BitVec.toNat_inj.mp (Int.ofNat_inj.mp hsame)
    · rw [h₁.rest a hnone, h₂.rest a hnone]
  have hsymbols : m₁.symbols = m₂.symbols :=
    Std.ExtTreeMap.ext_getElem? fun name => (h₁.symbol name).trans (h₂.symbol name).symm
  have hpc : m₁.registers.pc = m₂.registers.pc :=
    BitVec.toNat_inj.mp (Int.ofNat_inj.mp (h₁.pc.trans h₂.pc.symm))
  have hregisters : m₁.registers = m₂.registers :=
    Registers.ext (h₁.general.trans h₂.general.symm) hpc (h₁.ir.trans h₂.ir.symm)
      (h₁.psr.trans h₂.psr.symm)
  exact Machine.ext hmemory hregisters hsymbols (h₁.console.trans h₂.console.symm)
    (h₁.depth.trans h₂.depth.symm) (h₁.bus.trans h₂.bus.symm) (h₁.touched.trans h₂.touched.symm)
    (h₁.accesses.trans h₂.accesses.symm)

/-- Loading is exact for every machine and every program. -/
theorem loaded_iff (p : Program) (m m' : Machine) : p.Loaded m m' ↔ m' = m.load p := by
  constructor
  · intro h
    exact h.unique (loaded_load p m)
  · rintro rfl
    exact loaded_load p m

end Program

end LC3
