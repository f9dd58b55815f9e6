import LC3.Assembly.Mnemonic
import LC3.Assembly.Statement
import LC3.Instruction.Decode
import LC3.Program

/-!
# Listings

Words are shown as the assembly text that stands for them. A branch, load or store shows the label
at its target if there is one. A word that no instruction is written as, be it malformed or a
branch that is never taken, is shown as data with a note. `Program.source` is a whole source text,
which assembles to the program's words again.
-/

namespace LC3

/-! ## Words -/

namespace Listing

/-- The operand for an offset from the instruction at `address`. -/
def target (symbols : SymbolTable) (address : Option Word) {n : Nat} (offset : BitVec n) : String :=
  let label := address.bind fun a => symbols.nameOf? (a + 1 + offset.signExtend 16)
  label.getD s!"#{offset.toInt}"

def register (r : Reg) : String :=
  s!"R{r.toNat}"

def source : Source → String
  | .register r => register r
  | .immediate v => s!"#{v.toInt}"

/-- The conditions of a branch, in the order n, z, p. -/
def conditions (n z p : Bool) : String :=
  (if n then "n" else "") ++ (if z then "z" else "") ++ (if p then "p" else "")

/-- A service routine has a name of its own; any other vector is shown as a number. -/
def trap (vector : BitVec 8) : String :=
  match Assembly.routines.find? fun r => r.2 = vector with
  | some (name, _) => name
  | none => "TRAP " ++ Numeral.marked "x" 2 vector.toNat

/-- A name and its operands. -/
def command (name : String) (operands : List String) : String :=
  name ++ " " ++ ", ".intercalate operands

/-- The operands of an instruction that are written behind its name. -/
def instruction (symbols : SymbolTable) (address : Option Word) (i : Instruction) : String :=
  match i with
  | .add dr sr s | .and dr sr s => command i.name [register dr, register sr, source s]
  | .not dr sr => command i.name [register dr, register sr]
  | .br n z p offset => command (i.name ++ conditions n z p) [target symbols address offset]
  | .jmp base => if base = linkRegister then i.name else command i.name [register base]
  | .jsr offset => command i.name [target symbols address offset]
  | .jsrr base => command i.name [register base]
  | .ld r offset | .ldi r offset | .lea r offset | .st r offset | .sti r offset =>
    command i.name [register r, target symbols address offset]
  | .ldr r base offset | .str r base offset =>
    command i.name [register r, register base, s!"#{offset.toInt}"]
  | .trap vector => trap vector
  | .rti | .reserved => i.name

/-- A word shown as data. -/
def data (w : Word) (note : String) : String :=
  ".FILL x" ++ Numeral.hex w.toNat ++ " ; " ++ note

/-- The text of a word. -/
def word (symbols : SymbolTable) (address : Option Word) (w : Word) : String :=
  match decode w with
  | .reserved => data w "reserved opcode"
  | i =>
    if ¬w.WellFormed then data w ("malformed " ++ i.name)
    else
      match i with
      | .br false false false _ => data w "BR with no condition (never taken)"
      | i => instruction symbols address i

/-- A word of a program, where it stands and its text. -/
structure Line where
  address : Word
  word : Int
  text : String

/-- The text, filled up with blanks to `width` characters. -/
def column (width : Nat) (s : String) : String :=
  String.ofList (List.rightpad width ' ' s.toList)

end Listing

namespace Program

/-- The words of a program, line by line. The names of the cells are found once for all lines. -/
def listing (p : Program) : List Listing.Line :=
  let names := p.symbols.reduced
  p.code.zipIdx.map fun (w, i) =>
    let address := Word.ofInt (p.orig + (i : Nat))
    ⟨address, w, Listing.word names (some address) (Word.ofInt w)⟩

/-! ## Source texts -/

/-- The symbol can be written as a label of the program: it stands inside the image and its name
cannot be taken for anything else. -/
def hasLabel (p : Program) (name : String) (a : Int) : Bool :=
  p.orig ≤ a && a < p.orig + p.size && Assembly.isLabelName name && !Assembly.isCommand name

/-- The symbols that are written as labels. -/
def labels (p : Program) : SymbolTable :=
  p.symbols.filter fun name a => p.hasLabel name a

/-- The name at an address in front of its word. Only the addresses of cells can have one. -/
def labelAt (labels : SymbolTable) (a : Int) : String :=
  if 0 ≤ a ∧ a < memorySize then (labels.nameOf? (Word.ofInt a)).getD "" else ""

/-- The width of the column of labels. Of several names at one address only one is written. -/
def labelWidth (labels : SymbolTable) : Nat :=
  let written := labels.bindings.filter fun (name, a) =>
    labels.nameOf? (Word.ofInt a) = some name
  (written.map fun b => b.1.length).foldr max 0 + 1

/-- A source text for the program. -/
def source (p : Program) : String :=
  let labels := p.labels
  let column := Listing.column (labelWidth labels)
  let body := p.code.zipIdx.map fun (w, i) =>
    let a := p.orig + (i : Nat)
    column (labelAt labels a) ++ Listing.word labels (some (Word.ofInt a)) (Word.ofInt w)
  let lines :=
    [column "" ++ ".ORIG x" ++ Numeral.hex p.orig] ++ body ++ [column "" ++ ".END"]
  "\n".intercalate lines ++ "\n"

end Program

end LC3
