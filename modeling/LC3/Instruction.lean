import LC3.Word

/-!
# Instructions

An instruction is what a word means once its fields are told apart. Offsets, immediates and vectors
keep the width that the word gives them. `RET` is `JMP` through the link register `R7`.
-/

namespace LC3

/-- A general-purpose register, R0 to R7. -/
abbrev Reg := BitVec 3

/-- The register that subroutine calls link through. -/
def linkRegister : Reg := 7

/-- The last operand of `ADD` and `AND`. -/
inductive Source where
  | register (r : Reg)
  | immediate (value : BitVec 5)
  deriving DecidableEq, Repr

inductive Instruction where
  | add (dr sr : Reg) (source : Source)
  | and (dr sr : Reg) (source : Source)
  | not (dr sr : Reg)
  | br (n z p : Bool) (offset : BitVec 9)
  | jmp (base : Reg)
  | jsr (offset : BitVec 11)
  | jsrr (base : Reg)
  | ld (dr : Reg) (offset : BitVec 9)
  | ldi (dr : Reg) (offset : BitVec 9)
  | ldr (dr base : Reg) (offset : BitVec 6)
  | lea (dr : Reg) (offset : BitVec 9)
  | st (sr : Reg) (offset : BitVec 9)
  | sti (sr : Reg) (offset : BitVec 9)
  | str (sr base : Reg) (offset : BitVec 6)
  | trap (vector : BitVec 8)
  | rti
  | reserved
  deriving DecidableEq, Repr

/-- How the address that an instruction works on is formed. -/
inductive AddressingMode where
  | none
  | pcOffset
  | baseOffset
  | trap
  deriving DecidableEq, Repr

def AddressingMode.name : AddressingMode → String
  | none => "none"
  | pcOffset => "pcOffset"
  | baseOffset => "baseOffset"
  | trap => "trap"

namespace Instruction

def opcode : Instruction → BitVec 4
  | br .. => 0
  | add .. => 1
  | ld .. => 2
  | st .. => 3
  | jsr .. | jsrr .. => 4
  | and .. => 5
  | ldr .. => 6
  | str .. => 7
  | rti => 8
  | not .. => 9
  | ldi .. => 10
  | sti .. => 11
  | jmp .. => 12
  | reserved => 13
  | lea .. => 14
  | trap .. => 15

def name : Instruction → String
  | add .. => "ADD"
  | and .. => "AND"
  | not .. => "NOT"
  | br .. => "BR"
  | jmp base => if base = linkRegister then "RET" else "JMP"
  | jsr .. => "JSR"
  | jsrr .. => "JSRR"
  | ld .. => "LD"
  | ldi .. => "LDI"
  | ldr .. => "LDR"
  | lea .. => "LEA"
  | st .. => "ST"
  | sti .. => "STI"
  | str .. => "STR"
  | trap .. => "TRAP"
  | rti => "RTI"
  | reserved => "RSRV"

def mode : Instruction → AddressingMode
  | br .. | jsr .. | ld .. | ldi .. | lea .. | st .. | sti .. => .pcOffset
  | jmp .. | jsrr .. | ldr .. | str .. => .baseOffset
  | trap .. => .trap
  | add .. | and .. | not .. | rti | reserved => .none

/-- The condition bits that a branch tests; no other instruction tests any. -/
def testedBits : Instruction → BitVec 3
  | br n z p _ => BitVec.ofBool n ++ BitVec.ofBool z ++ BitVec.ofBool p
  | _ => 0

end Instruction

end LC3
