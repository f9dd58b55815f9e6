import LC3.Word

/-!
# Condition codes

The low three bits of the processor status register hold N, Z and P. Exactly one of them describes
the latest result; any other pattern stands for no condition.
-/

namespace LC3

inductive Condition where
  | negative
  | zero
  | positive
  deriving DecidableEq, Repr

namespace Condition

/-- The sign of a word read as a signed number. -/
def ofWord (w : Word) : Condition :=
  if w.toInt < 0 then negative else if w = 0 then zero else positive

/-- The bits N, Z and P. -/
def bits : Condition → BitVec 3
  | negative => 0b100
  | zero => 0b010
  | positive => 0b001

def ofBits? (b : BitVec 3) : Option Condition :=
  if b = negative.bits then some negative
  else if b = zero.bits then some zero
  else if b = positive.bits then some positive
  else none

/-- The condition that a status register shows. -/
def ofStatus? (psr : Word) : Option Condition :=
  ofBits? (psr.extractLsb' 0 3)

def sign : Condition → Int
  | negative => -1
  | zero => 0
  | positive => 1

def letter : Condition → String
  | negative => "N"
  | zero => "Z"
  | positive => "P"

/-- The letter of the condition that a status register shows. -/
def describe (psr : Word) : String :=
  match ofStatus? psr with
  | some c => c.letter
  | none => "Invalid"

/-- The status register with its condition replaced. -/
def store (c : Condition) (psr : Word) : Word :=
  psr.extractLsb' 3 13 ++ c.bits

end Condition

end LC3
