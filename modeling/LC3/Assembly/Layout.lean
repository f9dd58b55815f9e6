import LC3.Assembly.Statement
import LC3.SymbolTable

/-!
# Layout

Before anything is encoded, the statements are laid out from the origin on: every command takes up
its words, and every label is bound to the address it stands at. Instructions take up one word,
whatever is wrong with them.
-/

namespace LC3.Assembly

/-- The memory that a command takes up. -/
inductive Reservation where
  | word
  | block (count : Int)
  /-- One word for each character, and one for the end. -/
  | text (s : String)
  deriving DecidableEq, Repr

namespace Reservation

/-- The number of words. -/
def size : Reservation → Except Cause Nat
  | word => .ok 1
  | block count => if count < 0 then .error (.blockNegative count) else .ok count.toNat
  | text s => .ok (s.length + 1)

/-- The memory of a named command, from the count or text that its operand stands for. -/
def ofCommand (name : String) (count : Int) (s : String) : Reservation :=
  match Directive.ofName? (Text.upper name) with
  | some .blkw => block count
  | some .stringz => text s
  | _ => word

end Reservation

/-- The text that a string literal stands for. -/
def stringValue (token : String) : Except Cause String :=
  match StringLiteral.decode token.toList with
  | .ok s => .ok (String.ofList s)
  | .error flaw => .error (.string token flaw)

/-- The number of words of a block. -/
def blockCount (operand : String) : Except Cause Int := do
  match ← orFault (Literal.value? operand) with
  | none => throw (.blockLiteral operand)
  | some count => return count

/-- The memory that a directive takes up. The word of `.FILL` may be a label, which is looked up
later. -/
def Directive.reservation (d : Directive) (operand : String) : Except Cause Reservation :=
  match d with
  | fill => .ok .word
  | blkw => return .block (← blockCount operand)
  | stringz => return .text (← stringValue operand)

/-- The memory that a command takes up. An unknown directive is reported in upper case. -/
def Command.reservation (c : Command) : Except Cause Reservation :=
  if c.isDirective then
    match Directive.ofName? (Text.upper c.name) with
    | none => .error (.unknownDirective (Text.upper c.name))
    | some d =>
      match c.operands with
      | [operand] => d.reservation operand
      | operands => .error (.directiveOperands d.name operands.length)
  else .ok .word

/-- The number of words of a statement. -/
def Statement.size (s : Statement) : Except Cause Nat :=
  match s.command with
  | none => .ok 0
  | some c => do (← c.reservation).size

/-- Binds a label to the address it stands at, which must be that of a cell. -/
def bindLabel (symbols : SymbolTable) (address : Int) (name : String) :
    Except Cause SymbolTable :=
  if memorySize < address + 1 then .error (.pastMemory (address + 1))
  else
    match symbols[name]? with
    | none => .ok (symbols.insert name address)
    | some bound => if bound = address then .ok symbols else .error (.labelBound name bound)

/-- Binds the label of a statement, if it has one. -/
def Statement.bind (s : Statement) (symbols : SymbolTable) (address : Int) :
    Except Cause SymbolTable :=
  match s.label with
  | none => .ok symbols
  | some name => bindLabel symbols address name

/-- Lays out one statement: the symbols with its label, and the address behind it. -/
def Statement.place (s : Statement) (symbols : SymbolTable) (address : Int) :
    Except Cause (SymbolTable × Int) := do
  let symbols ← s.bind symbols address
  let next := address + (← s.size)
  if memorySize < next then throw (.pastMemory next)
  return (symbols, next)

/-- Lays out statements from an address on. -/
def placeAll (symbols : SymbolTable) (address : Int) :
    List Statement → Except Diagnostic (SymbolTable × Int)
  | [] => .ok (symbols, address)
  | s :: rest => do
    let (symbols, next) ← atLine s.line (s.place symbols address)
    placeAll symbols next rest

structure Layout where
  symbols : SymbolTable
  /-- The number of words of the image. -/
  length : Int

/-- Lays out the program that begins at the line of index `start`, an index as in `bodyFrom`. -/
def layout (lines : List (List String)) (orig : Int) (start : Nat) : Except Diagnostic Layout := do
  let body ← bodyFrom lines start
  let (symbols, stop) ← placeAll ∅ orig body.statements
  if !body.ended then throw ⟨lastLine lines, .missingEnd⟩
  return ⟨symbols, stop - orig⟩

end LC3.Assembly
