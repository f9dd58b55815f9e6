import LC3.Assembly.StringLiteral
import LC3.Numeral

/-!
# Diagnostics

What can be wrong with a source text. A diagnostic is a cause and the line it stands on; its wording
is in `message`. A numeral that is too long is no diagnostic: it is kept as a fault, and writing the
message fails with it.
-/

namespace LC3.Assembly

/-- Why an operand is no offset. -/
inductive OffsetFlaw where
  | fault (f : Fault)
  | unknownLabel (operand : String)
  /-- The offset does not fit into a field of so many bits. -/
  | range (offset : Int) (bits : Nat)
  deriving DecidableEq, Repr

/-- The least value of a signed field. -/
def fieldMin (bits : Nat) : Int :=
  -(1 <<< (bits - 1) : Nat)

/-- The greatest value of a signed field. -/
def fieldMax (bits : Nat) : Int :=
  (1 <<< (bits - 1) : Nat) - 1

def OffsetFlaw.message : OffsetFlaw → Except Fault String
  | fault f => .error f
  | unknownLabel operand =>
    .ok <| "the offset '" ++ operand ++ "' is not a valid numeric literal, and there is no " ++
      "label by that name in the symbol table; is a label name misspelled?"
  | range offset bits => do
    let found ← Numeral.decimal offset
    let low ← Numeral.decimal (fieldMin bits)
    let high ← Numeral.decimal (fieldMax bits)
    return s!"offset {found} is out of range; it must fit into {bits} bits, so it should be " ++
      s!"between {low} and {high}, inclusive"

inductive Cause where
  | fault (f : Fault)
  | emptyProgram
  | missingOrigin
  | labelledOrigin
  | originOperands (found : Nat)
  | originLiteral (operand : String)
  | originRange (operand : String)
  | missingEnd
  | labelName (token : String)
  | unknownDirective (name : String)
  | directiveOperands (name : String) (found : Nat)
  | pastMemory (address : Int)
  /-- The label is already bound to another address. -/
  | labelBound (name : String) (address : Int)
  | blockLiteral (operand : String)
  | blockNegative (count : Int)
  | string (token : String) (flaw : StringLiteral.Flaw)
  | fillOperand (operand : String)
  | unknownInstruction (mnemonic : String)
  | instructionOperands (mnemonic : String) (expected found : Nat)
  | register (operand : String)
  | immediateRange (value : Int)
  | vectorLiteral (operand : String)
  | vectorRange (value : Int)
  | offset (mnemonic : String) (flaw : OffsetFlaw)
  deriving DecidableEq, Repr

namespace Cause

def message : Cause → Except Fault String
  | fault f => .error f
  | emptyProgram =>
    .ok "the program is empty; it needs at least an .ORIG directive and an .END directive"
  | missingOrigin => .ok "the first non-empty, non-comment line must hold an .ORIG directive"
  | labelledOrigin => .ok ".ORIG directive cannot have a label"
  | originOperands found =>
    .ok s!"the .ORIG directive expects exactly one operand, but found {found}"
  | originLiteral operand =>
    .ok <| "while parsing the .ORIG operand: invalid numeric literal '" ++ operand ++ "'"
  | originRange operand =>
    .ok s!".ORIG operand ({operand}) is out of range; it must be between x0000 and xFFFF, inclusive"
  | missingEnd => .ok "no .END directive found"
  | labelName token =>
    .ok <| "this line looks like a label, but '" ++ token ++ "' is not a valid label name; " ++
      "either an instruction is misspelled or the label name is invalid"
  | unknownDirective name => .ok s!"unrecognized directive {name}"
  | directiveOperands name found =>
    .ok s!"expected {name} directive to have exactly one operand, but found {found}"
  | pastMemory address =>
    .ok <| "currently at address " ++ Numeral.address address ++
      ", which is past the memory limit of x10000"
  | labelBound name address =>
    .ok <| s!"label name {name} already exists; it points to " ++ Numeral.address address
  | blockLiteral operand => .ok <| "invalid numeric literal '" ++ operand ++ "' in .BLKW"
  | blockNegative count =>
    return "a .BLKW needs a non-negative length, but found " ++ (← Numeral.decimal count)
  | string token flaw => .ok <| s!"while parsing the string {token}: " ++ flaw.message
  | fillOperand operand =>
    .ok <| "the .FILL operand '" ++ operand ++
      "' is neither a valid numeric literal nor a known label"
  | unknownInstruction mnemonic => .ok <| "unrecognized instruction \"" ++ mnemonic ++ "\""
  | instructionOperands mnemonic expected found =>
    let noun := if expected = 1 then "operand" else "operands"
    .ok <| s!"expected {mnemonic} instruction to have exactly {expected} {noun}, " ++
      s!"but found {found}"
  | register operand => .ok <| "invalid register specification: '" ++ operand ++ "'"
  | immediateRange value =>
    return "immediate field is out of range: expected value to fit in 5 bits (i.e., to be " ++
      "between -16 and 15, inclusive), but found " ++ (← Numeral.decimal value)
  | vectorLiteral operand =>
    .ok <| "while parsing the trap vector: invalid numeric literal '" ++ operand ++ "'"
  | vectorRange value =>
    return "trap vector out of range: expected value to be an unsigned byte (i.e., between " ++
      "0 and 255, inclusive), but found " ++ (← Numeral.decimal value)
  | offset mnemonic flaw =>
    return s!"while parsing the offset for a {mnemonic}: " ++ (← flaw.message)

end Cause

/-- A cause and its source line, counted from one. -/
structure Diagnostic where
  line : Nat
  cause : Cause
  deriving DecidableEq, Repr

def Diagnostic.message (d : Diagnostic) : Except Fault String :=
  return s!"Line {d.line}: " ++ (← d.cause.message)

/-- Puts a cause on a line. -/
def atLine {α : Type} (line : Nat) : Except Cause α → Except Diagnostic α
  | .ok a => .ok a
  | .error cause => .error ⟨line, cause⟩

/-- Keeps a fault as a cause. -/
def orFault {α : Type} : Except Fault α → Except Cause α
  | .ok a => .ok a
  | .error f => .error (.fault f)

end LC3.Assembly
