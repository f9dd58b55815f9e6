import LC3.Assembly.Layout
import LC3.Instruction.Decode

/-!
# Encoding

Commands become words once all labels have addresses. An offset is a literal or a label; a label's
offset is its distance from the address behind the instruction, without any wrapping.
-/

namespace LC3.Assembly

/-! ## Operands -/

/-- A register, `R0` to `R7`, with the letter in either case. -/
def register? (operand : String) : Option Reg :=
  match operand.toList with
  | [r, d] =>
    if (r = 'R' ∨ r = 'r') ∧ '0' ≤ d ∧ d ≤ '7' then some (BitVec.ofNat 3 (d.toNat - '0'.toNat))
    else none
  | _ => none

def register (operand : String) : Except Cause Reg :=
  match register? operand with
  | some r => .ok r
  | none => .error (.register operand)

/-- The offset that an operand stands for at `pc`, if a field of `bits` bits can hold it. -/
def offset (pc : Int) (operand : String) (symbols : SymbolTable) (bits : Nat) :
    Except OffsetFlaw Int :=
  let check (n : Int) : Except OffsetFlaw Int :=
    if fieldMin bits ≤ n ∧ n ≤ fieldMax bits then .ok n else .error (.range n bits)
  match Literal.value? operand with
  | .error f => .error (.fault f)
  | .ok (some n) => check n
  | .ok none =>
    match symbols[operand]? with
    | some address => check (address - pc)
    | none => .error (.unknownLabel operand)

/-- As `offset`; a field has at least one bit. -/
def offset? (pc : Int) (operand : String) (symbols : SymbolTable) (bits : Int) :
    Except OffsetFlaw Int :=
  if bits ≤ 0 then .error (.fault .shiftCount) else offset pc operand symbols bits.toNat

/-! ## Instructions -/

/-- Where an instruction is encoded: its name as written, the address behind it, and the symbols. -/
structure Site where
  mnemonic : String
  pc : Int
  symbols : SymbolTable

/-- The offset field of an instruction. -/
def Site.offsetField (s : Site) (operand : String) (bits : Nat) : Except Cause (BitVec bits) :=
  match offset s.pc operand s.symbols bits with
  | .ok n => .ok (BitVec.ofInt bits n)
  | .error flaw => .error (.offset s.mnemonic flaw)

/-- The last operand of `ADD` and `AND`: a literal that fits into five bits, or a register. -/
def source (operand : String) : Except Cause Source := do
  match ← orFault (Literal.value? operand) with
  | some n =>
    if fieldMin 5 ≤ n ∧ n ≤ fieldMax 5 then return .immediate (BitVec.ofInt 5 n)
    throw (.immediateRange n)
  | none => return .register (← register operand)

/-- A trap vector, an unsigned byte. -/
def trapVector (operand : String) : Except Cause (BitVec 8) := do
  match ← orFault (Literal.value? operand) with
  | none => throw (.vectorLiteral operand)
  | some n =>
    if 0 ≤ n ∧ n ≤ 0xFF then return BitVec.ofInt 8 n
    throw (.vectorRange n)

/-- The instruction that a mnemonic and its operands stand for. -/
def Mnemonic.instruction (m : Mnemonic) (operands : List String) (s : Site) :
    Except Cause Instruction :=
  match m, operands with
  | add, [a, b, c] => return .add (← register a) (← register b) (← source c)
  | and, [a, b, c] => return .and (← register a) (← register b) (← source c)
  | not, [a, b] => return .not (← register a) (← register b)
  | br n z p, [a] => return .br n z p (← s.offsetField a 9)
  | jmp, [a] => return .jmp (← register a)
  | ret, [] => .ok (.jmp linkRegister)
  | jsr, [a] => return .jsr (← s.offsetField a 11)
  | jsrr, [a] => return .jsrr (← register a)
  | ld, [a, b] => return .ld (← register a) (← s.offsetField b 9)
  | ldi, [a, b] => return .ldi (← register a) (← s.offsetField b 9)
  | lea, [a, b] => return .lea (← register a) (← s.offsetField b 9)
  | st, [a, b] => return .st (← register a) (← s.offsetField b 9)
  | sti, [a, b] => return .sti (← register a) (← s.offsetField b 9)
  | ldr, [a, b, c] => return .ldr (← register a) (← register b) (← s.offsetField c 6)
  | str, [a, b, c] => return .str (← register a) (← register b) (← s.offsetField c 6)
  | rti, [] => .ok .rti
  | trap, [a] => return .trap (← trapVector a)
  | routine vector, [] => .ok (.trap vector)
  | m, operands => .error (.instructionOperands s.mnemonic m.arity operands.length)

/-- The instruction of a command at `pc`. -/
def Command.instruction (c : Command) (pc : Int) (symbols : SymbolTable) :
    Except Cause Instruction :=
  match Mnemonic.ofName? (Text.upper c.name) with
  | none => .error (.unknownInstruction c.name)
  | some m => m.instruction c.operands ⟨c.name, pc, symbols⟩

def Command.instructionWord (c : Command) (pc : Int) (symbols : SymbolTable) :
    Except Cause Word :=
  return (← c.instruction pc symbols).encode

/-! ## Directives -/

/-- The word of a `.FILL`: a literal or a label's address, wrapped. -/
def fillWord (operand : String) (symbols : SymbolTable) : Except Cause Word := do
  match ← orFault (Literal.value? operand) with
  | some n => return Word.ofInt n
  | none =>
    match symbols[operand]? with
    | some address => return Word.ofInt address
    | none => throw (.fillOperand operand)

/-- The words of a string: the character codes, wrapped, and a zero. -/
def stringWords (s : String) : List Word :=
  s.toList.map (fun c => BitVec.ofNat 16 c.toNat) ++ [0]

def Directive.words (d : Directive) (operand : String) (symbols : SymbolTable) :
    Except Cause (List Word) :=
  match d with
  | fill => return [← fillWord operand symbols]
  | blkw => do
    let count ← (Reservation.block (← blockCount operand)).size
    return List.replicate count 0
  | stringz => return stringWords (← stringValue operand)

/-- The words of a directive. An unknown one is reported as written. -/
def Command.directiveWords (c : Command) (symbols : SymbolTable) : Except Cause (List Word) :=
  match Directive.ofName? (Text.upper c.name) with
  | none => .error (.unknownDirective c.name)
  | some d =>
    match c.operands with
    | [operand] => d.words operand symbols
    | operands => .error (.directiveOperands d.name operands.length)

/-! ## Programs -/

/-- The words of a command that stands at `address`. -/
def Command.words (c : Command) (symbols : SymbolTable) (address : Int) :
    Except Cause (List Word) :=
  if c.isDirective then c.directiveWords symbols
  else return [← c.instructionWord (address + 1) symbols]

def Statement.words (s : Statement) (symbols : SymbolTable) (address : Int) :
    Except Cause (List Word) :=
  match s.command with
  | none => .ok []
  | some c => c.words symbols address

/-- The words of statements from an address on. -/
def encodeAll (symbols : SymbolTable) (address : Int) :
    List Statement → Except Diagnostic (List Word)
  | [] => .ok []
  | s :: rest => do
    let words ← atLine s.line (s.words symbols address)
    return words ++ (← encodeAll symbols (address + words.length) rest)

/-- The words of the program that begins at the line of index `start`, an index as in `bodyFrom`. -/
def machineCode (lines : List (List String)) (symbols : SymbolTable) (orig : Int) (start : Nat) :
    Except Diagnostic (List Word) := do
  let body ← bodyFrom lines start
  let words ← encodeAll symbols orig body.statements
  if !body.ended then throw ⟨lastLine lines, .missingEnd⟩
  return words

end LC3.Assembly
