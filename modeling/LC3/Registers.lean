import LC3.Condition
import LC3.Instruction
import LC3.Numeral

/-!
# The register file

Eight general-purpose registers, the program counter, the instruction register with the word
fetched last, and the processor status register.
-/

namespace LC3

structure Registers where
  general : Vector Word 8
  pc : Word
  ir : Word
  psr : Word
  deriving DecidableEq

namespace Registers

/-- The state after power-on: user mode, condition Z. -/
def powerOn : Registers where
  general := Vector.replicate 8 0
  pc := 0x3000
  ir := 0
  psr := 0x8002

def get (r : Registers) (n : Reg) : Word :=
  r.general[n.toNat]

def set (r : Registers) (n : Reg) (w : Word) : Registers :=
  { r with general := r.general.set n.toNat w }

/-- The status register describes `w`; its other bits stay. -/
def setCondition (r : Registers) (w : Word) : Registers :=
  { r with psr := (Condition.ofWord w).store r.psr }

/-- The register of a number from 0 to 7. -/
def index? (n : Int) : Except Fault Reg :=
  if 0 ≤ n ∧ n < 8 then .ok (BitVec.ofInt 3 n)
  else do
    -- the report shows the number, which may be too long to be written
    let _ ← Numeral.decimal n
    throw (.registerIndex n)

def get? (r : Registers) (n : Int) : Except Fault Word :=
  return r.get (← index? n)

def set? (r : Registers) (n : Int) (w : Word) : Except Fault Registers :=
  return r.set (← index? n) w

/-- Names and contents, the general-purpose registers first. -/
def fields (r : Registers) : List (String × Word) :=
  r.general.toList.zipIdx.map (fun (w, n) => (s!"r{n}", w)) ++
    [("pc", r.pc), ("ir", r.ir), ("psr", r.psr)]

/-- All registers in one line, followed by the letter of the condition. -/
def display (r : Registers) : String :=
  let shown (w : Word) := Numeral.hex w.toNat
  let general := r.general.toList.zipIdx.map fun (w, n) => s!"R{n}=" ++ shown w
  " ".intercalate general ++ " PC=" ++ shown r.pc ++ " IR=" ++ shown r.ir ++
    " PSR=" ++ shown r.psr ++ " [" ++ Condition.describe r.psr ++ "]"

def describe (r : Registers) : String :=
  "Registers(" ++ r.display ++ ")"

end Registers

end LC3
