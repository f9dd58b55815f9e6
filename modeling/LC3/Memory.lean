import LC3.Numeral
import LC3.Word

/-!
# Memory

65,536 cells of one word each. Addresses are words, so that counting past the last address goes on
at the first. What devices do when an instruction reaches a cell is in `LC3.Machine.Devices`.
-/

namespace LC3

structure Memory where
  cells : Vector Word 65536
  deriving DecidableEq

namespace Memory

def blank : Memory :=
  ⟨Vector.replicate 65536 0⟩

/-- The memory that holds exactly these words, wrapped. -/
def ofList? (words : List Int) : Except Fault Memory :=
  let cells := words.map Word.ofInt
  if h : cells.length = 65536 then .ok ⟨⟨cells.toArray, by simpa using h⟩⟩
  else .error (.imageSize cells.length)

def peek (m : Memory) (a : Word) : Word :=
  m.cells[a.toNat]

def poke (m : Memory) (a v : Word) : Memory :=
  ⟨m.cells.set a.toNat v⟩

/-- Copies words to the addresses from `a` on. -/
def load (m : Memory) (a : Word) : List Word → Memory
  | [] => m
  | w :: ws => (m.poke a w).load (a + 1) ws

/-! ## Views by integer positions -/

/-- A position counted from the end if it is negative, clipped to the cells. -/
def clip (n : Int) : Nat :=
  if n < 0 then (n + 65536).toNat else min n.toNat 65536

/-- The cells from `start` up to `stop`; negative positions count from the end. -/
def slice (m : Memory) (start stop : Int) : List Word :=
  (m.cells.toList.take (clip stop)).drop (clip start)

/-- The cell at a position from -65536 to 65535. -/
def item? (m : Memory) (n : Int) : Except Fault Word :=
  if -65536 ≤ n ∧ n < 65536 then .ok (m.peek (Word.ofInt n)) else .error .cellIndex

/-- The cells in which `m` differs from `old`, by ascending address, with their new contents. -/
def changes (old m : Memory) : List (Nat × Word) :=
  (old.cells.toList.zip m.cells.toList).zipIdx.filterMap fun ((before, after), a) =>
    if before = after then none else some (a, after)

/-! ## Dump -/

/-- A word as one character: itself where it is a printable ASCII code. -/
def shownChar (w : Word) : Char :=
  if 0x20 ≤ w.toNat ∧ w.toNat < 0x7F then Char.ofNat w.toNat else '.'

/-- Address, words and characters of the eight cells from `a` on. -/
def dumpRow (m : Memory) (a : Word) : String :=
  let row := (List.range 8).map fun i => m.peek (a + BitVec.ofNat 16 i)
  "x" ++ Numeral.hex a.toNat ++ "  " ++
    " ".intercalate (row.map fun w => Numeral.hex w.toNat) ++ "  " ++
    String.ofList (row.map shownChar)

/-- Rows of eight cells that cover `length` cells from `start` on. -/
def hexdump (m : Memory) (start length : Int) : String :=
  "\n".intercalate <| (List.range ((length.toNat + 7) / 8)).map fun (k : Nat) =>
    m.dumpRow (Word.ofInt (start + 8 * (k : Nat)))

end Memory

end LC3
