import LC3.Instruction
import LC3.Text.Upper

/-!
# Mnemonics and directives

The names that a line can begin with. They are compared in upper case, so that `add` and `.fill`
are names too.
-/

namespace LC3.Assembly

/-- The directives that take up memory. -/
inductive Directive where
  /-- One word, given as a literal or a label. -/
  | fill
  /-- A block of zeros. -/
  | blkw
  /-- A string, one word for each character, and a zero. -/
  | stringz
  deriving DecidableEq, Repr

namespace Directive

def name : Directive → String
  | fill => ".FILL"
  | blkw => ".BLKW"
  | stringz => ".STRINGZ"

def all : List Directive :=
  [fill, blkw, stringz]

/-- The directive of an upper-case name. -/
def ofName? (s : String) : Option Directive :=
  all.find? fun d => d.name = s

end Directive

/-- The instructions as they are written. A branch holds the conditions it is taken on, and a
service routine its trap vector. -/
inductive Mnemonic where
  | add
  | and
  | not
  | br (n z p : Bool)
  | jmp
  | ret
  | jsr
  | jsrr
  | ld
  | ldi
  | ldr
  | lea
  | rti
  | st
  | sti
  | str
  | trap
  | routine (vector : BitVec 8)
  deriving DecidableEq, Repr

/-- The trap service routines that have a name of their own. -/
def routines : List (String × BitVec 8) :=
  [("GETC", 0x20), ("OUT", 0x21), ("PUTS", 0x22), ("IN", 0x23), ("PUTSP", 0x24), ("HALT", 0x25)]

/-- The branches. Plain `BR` is taken on every condition. -/
def branches : List (String × Mnemonic) :=
  [("BR", .br true true true), ("BRN", .br true false false), ("BRZ", .br false true false),
    ("BRP", .br false false true), ("BRNZ", .br true true false), ("BRNP", .br true false true),
    ("BRZP", .br false true true), ("BRNZP", .br true true true)]

namespace Mnemonic

def table : List (String × Mnemonic) :=
  [("ADD", add), ("AND", and), ("NOT", not)] ++ branches ++
    [("JMP", jmp), ("RET", ret), ("JSR", jsr), ("JSRR", jsrr), ("LD", ld), ("LDI", ldi),
      ("LDR", ldr), ("LEA", lea), ("RTI", rti), ("ST", st), ("STI", sti), ("STR", str),
      ("TRAP", trap)] ++
    routines.map fun (s, vector) => (s, routine vector)

/-- The mnemonic of an upper-case name. -/
def ofName? (s : String) : Option Mnemonic :=
  table.lookup s

/-- The number of operands. -/
def arity : Mnemonic → Nat
  | ret | rti | routine _ => 0
  | br .. | jmp | jsr | jsrr | trap => 1
  | not | ld | ldi | lea | st | sti => 2
  | add | and | ldr | str => 3

end Mnemonic

/-- The token names an instruction or a directive, in any case. -/
def isCommand (token : String) : Bool :=
  let name := Text.upper token
  (Mnemonic.ofName? name).isSome || (Directive.ofName? name).isSome

end LC3.Assembly
