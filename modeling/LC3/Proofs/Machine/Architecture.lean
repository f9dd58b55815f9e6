import LC3.Word
import Mathlib.Tactic.IntervalCases

/-!
# The architecture

The instruction set as a relation between states, stated on the bits of the word alone: no decoded
instruction, no bus. `Executes w s s'` has one rule for each way in which a word is executed; the
keyboard and the display are part of `State.load` and `State.store`. Sums are taken modulo 2^16, and
the bits that an instruction leaves unused have no influence.
-/

namespace LC3.Architecture

/-! ## Fields -/

/-- The `count` bits of a word from bit `low` on, as a number. -/
def field (w : Word) (low count : Nat) : Nat :=
  w.toNat / 2 ^ low % 2 ^ count

/-- The low `count` bits of a word as a two's complement number. -/
def signed (w : Word) (count : Nat) : Int :=
  if field w 0 count < 2 ^ (count - 1) then field w 0 count else field w 0 count - 2 ^ count

def opcode (w : Word) : Nat :=
  field w 12 4

/-- The register whose number is the field from bit `low` on. -/
def register (w : Word) (low : Nat) : BitVec 3 :=
  BitVec.ofNat 3 (field w low 3)

/-- The sum of a word and an integer, modulo 2^16. -/
def displace (a : Word) (n : Int) : Word :=
  BitVec.ofInt 16 (a.toNat + n)

/-- The word with bit 15 replaced. -/
def withReady (w : Word) (ready : Bool) : Word :=
  BitVec.ofNat 16 (field w 0 15 + if ready then 0x8000 else 0)

/-- The status with N, Z and P replaced by the sign of a result; the other bits stay. -/
def flagged (psr v : Word) : Word :=
  BitVec.ofNat 16 (psr.toNat / 8 * 8 + if v.toInt < 0 then 4 else if v.toInt = 0 then 2 else 1)

/-! ## States -/

/-- What programs can see of a machine, and how deep its subroutine calls are nested. -/
@[ext] structure State where
  reg : BitVec 3 → Word
  pc : Word
  ir : Word
  psr : Word
  mem : Word → Word
  input : List Char
  output : List Char
  depth : Int

namespace State

def setReg (s : State) (r : BitVec 3) (v : Word) : State :=
  { s with reg := fun k => if k = r then v else s.reg k }

def setMem (s : State) (a v : Word) : State :=
  { s with mem := fun b => if b = a then v else s.mem b }

/-- Writes a result, which the condition then describes. -/
def result (s : State) (dr : BitVec 3) (v : Word) : State :=
  { s.setReg dr v with psr := flagged s.psr v }

/-- Reads the keyboard's data: the next character is delivered if one waits, and the status shows
whether more do. -/
def key (s : State) : State :=
  match s.input with
  | [] => s.setMem 0xFE00 (withReady (s.mem 0xFE00) false)
  | c :: rest =>
    { (s.setMem 0xFE00 (withReady (s.mem 0xFE00) !rest.isEmpty)).setMem 0xFE02
        (BitVec.ofNat 16 (c.toNat % 256)) with input := rest }

/-- The word read at an address. -/
def load (s : State) (a : Word) : Word × State :=
  if a = 0xFE02 then (s.key.mem 0xFE02, s.key) else (s.mem a, s)

/-- Stores a word at an address. On the display's data, its low byte is printed and the display is
busy from then on. -/
def store (s : State) (a v : Word) : State :=
  let t := s.setMem a v
  if a = 0xFE06 then
    { t.setMem 0xFE04 (withReady (t.mem 0xFE04) false) with
      output := t.output ++ [Char.ofNat (field v 0 8)] }
  else t

/-- Goes on at an address, with the return address in R7. -/
def link (s : State) (a : Word) : State :=
  { s.setReg 7 s.pc with pc := a }

theorem reg_load (s : State) (a : Word) : (s.load a).2.reg = s.reg := by
  unfold load key
  split
  · cases s.input <;> rfl
  · rfl

/-- The vectors of service routines are not among the devices. -/
theorem load_vector (s : State) (w : Word) :
    s.load (BitVec.ofNat 16 (field w 0 8)) =
      (s.mem (BitVec.ofNat 16 (field w 0 8)), s) := by
  have hlt : field w 0 8 < 256 := Nat.mod_lt _ (by decide)
  refine if_neg fun h => ?_
  have := congrArg BitVec.toNat h
  rw [BitVec.toNat_ofNat, Nat.mod_eq_of_lt (by omega)] at this
  change field w 0 8 = 0xFE02 at this
  omega

end State

/-! ## Execution -/

/-- The word is executed in a state whose program counter points behind it. -/
inductive Executes (w : Word) (s : State) : State → Prop where
  | addRegister (ho : opcode w = 1) (hk : field w 5 1 = 0) :
      Executes w s (s.result (register w 9) (s.reg (register w 6) + s.reg (register w 0)))
  | addImmediate (ho : opcode w = 1) (hk : field w 5 1 = 1) :
      Executes w s (s.result (register w 9) (displace (s.reg (register w 6)) (signed w 5)))
  | andRegister (ho : opcode w = 5) (hk : field w 5 1 = 0) :
      Executes w s (s.result (register w 9) (s.reg (register w 6) &&& s.reg (register w 0)))
  | andImmediate (ho : opcode w = 5) (hk : field w 5 1 = 1) :
      Executes w s (s.result (register w 9) (s.reg (register w 6) &&& BitVec.ofInt 16 (signed w 5)))
  | not (ho : opcode w = 9) :
      Executes w s (s.result (register w 9) (~~~ s.reg (register w 6)))
  | branch (ho : opcode w = 0) (hc : field w 9 3 &&& field s.psr 0 3 ≠ 0) :
      Executes w s { s with pc := displace s.pc (signed w 9) }
  | noBranch (ho : opcode w = 0) (hc : field w 9 3 &&& field s.psr 0 3 = 0) :
      Executes w s s
  | jmp (ho : opcode w = 12) (hb : register w 6 ≠ 7) :
      Executes w s { s with pc := s.reg (register w 6) }
  | ret (ho : opcode w = 12) (hb : register w 6 = 7) :
      Executes w s { s with pc := s.reg 7, depth := s.depth - 1 }
  | jsr (ho : opcode w = 4) (hk : field w 11 1 = 1) :
      Executes w s { s.link (displace s.pc (signed w 11)) with depth := s.depth + 1 }
  | jsrr (ho : opcode w = 4) (hk : field w 11 1 = 0) :
      Executes w s { s.link (s.reg (register w 6)) with depth := s.depth + 1 }
  | ld {v : Word} {t : State} (ho : opcode w = 2)
      (hv : s.load (displace s.pc (signed w 9)) = (v, t)) :
      Executes w s (t.result (register w 9) v)
  | ldi {p v : Word} {t u : State} (ho : opcode w = 10)
      (hp : s.load (displace s.pc (signed w 9)) = (p, t)) (hv : t.load p = (v, u)) :
      Executes w s (u.result (register w 9) v)
  | ldr {v : Word} {t : State} (ho : opcode w = 6)
      (hv : s.load (displace (s.reg (register w 6)) (signed w 6)) = (v, t)) :
      Executes w s (t.result (register w 9) v)
  | lea (ho : opcode w = 14) :
      Executes w s (s.result (register w 9) (displace s.pc (signed w 9)))
  | st (ho : opcode w = 3) :
      Executes w s (s.store (displace s.pc (signed w 9)) (s.reg (register w 9)))
  | sti {p : Word} {t : State} (ho : opcode w = 11)
      (hp : s.load (displace s.pc (signed w 9)) = (p, t)) :
      Executes w s (t.store p (s.reg (register w 9)))
  | str (ho : opcode w = 7) :
      Executes w s (s.store (displace (s.reg (register w 6)) (signed w 6)) (s.reg (register w 9)))
  | trap (ho : opcode w = 15) :
      Executes w s (s.link (s.mem (BitVec.ofNat 16 (field w 0 8))))
  | rti (ho : opcode w = 8) : Executes w s s
  | reserved (ho : opcode w = 13) : Executes w s s

/-- One step: the word at the program counter is fetched without any effect on devices and goes into
the instruction register; the program counter moves on; and the word is executed. -/
def Step (s s' : State) : Prop :=
  Executes (s.mem s.pc) { s with ir := s.mem s.pc, pc := displace s.pc 1 } s'

theorem exists_executes (w : Word) (s : State) : ∃ s', Executes w s s' := by
  have hlt : opcode w < 16 := Nat.mod_lt _ (by decide)
  have h5 : field w 5 1 = 0 ∨ field w 5 1 = 1 := Nat.mod_two_eq_zero_or_one _
  have h11 : field w 11 1 = 0 ∨ field w 11 1 = 1 := Nat.mod_two_eq_zero_or_one _
  generalize ho : opcode w = k at hlt
  interval_cases k
  · by_cases hc : field w 9 3 &&& field s.psr 0 3 = 0
    · exact ⟨_, .noBranch ho hc⟩
    · exact ⟨_, .branch ho hc⟩
  · rcases h5 with h | h
    · exact ⟨_, .addRegister ho h⟩
    · exact ⟨_, .addImmediate ho h⟩
  · exact ⟨_, .ld ho rfl⟩
  · exact ⟨_, .st ho⟩
  · rcases h11 with h | h
    · exact ⟨_, .jsrr ho h⟩
    · exact ⟨_, .jsr ho h⟩
  · rcases h5 with h | h
    · exact ⟨_, .andRegister ho h⟩
    · exact ⟨_, .andImmediate ho h⟩
  · exact ⟨_, .ldr ho rfl⟩
  · exact ⟨_, .str ho⟩
  · exact ⟨_, .rti ho⟩
  · exact ⟨_, .not ho⟩
  · exact ⟨_, .ldi ho rfl rfl⟩
  · exact ⟨_, .sti ho rfl⟩
  · by_cases hb : register w 6 = 7
    · exact ⟨_, .ret ho hb⟩
    · exact ⟨_, .jmp ho hb⟩
  · exact ⟨_, .reserved ho⟩
  · exact ⟨_, .lea ho⟩
  · exact ⟨_, .trap ho⟩

end LC3.Architecture
