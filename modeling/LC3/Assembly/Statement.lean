import LC3.Assembly.Diagnostic
import LC3.Assembly.Literal
import LC3.Assembly.Mnemonic

/-!
# Statements

A statement is a line of the program proper: a label, a command, or both. `statements` reads them
from the token lines behind the origin, up to the first `.END`; what follows that is ignored. A
label is told from a command by its name alone.
-/

namespace LC3.Assembly

/-! ## Labels -/

def isLabelChar (c : Char) : Bool :=
  c.isAlphanum || c = '_'

/-- The text may name a symbol: it is made of letters, digits and underscores, and is neither a
literal nor the bare marker of one. -/
def isLabelName (s : String) : Bool :=
  !s.toList.isEmpty && s.toList.all isLabelChar && s ≠ "x" && s ≠ "X" &&
    Literal.value? s matches .ok none

/-! ## Statements -/

/-- An instruction or directive with its operands, as written. -/
structure Command where
  name : String
  operands : List String
  deriving DecidableEq, Repr

namespace Command

/-- A command line; its first token is the name. -/
def ofTokens? : List String → Except Fault Command
  | [] => .error .cellIndex
  | name :: operands => .ok ⟨name, operands⟩

/-- The name stands for a directive, known or not. -/
def isDirective (c : Command) : Bool :=
  c.name.toList.head? = some '.'

end Command

structure Statement where
  /-- The source line, counted from one. -/
  line : Nat
  label : Option String
  command : Option Command
  deriving DecidableEq, Repr

/-- The statements of a program, and whether an `.END` closes it. -/
structure Body where
  statements : List Statement
  ended : Bool
  deriving DecidableEq, Repr

def Body.cons (s : Statement) (b : Body) : Body :=
  { b with statements := s :: b.statements }

def isEnd (token : String) : Bool :=
  Text.upper token = ".END"

/-- The rest of a line behind its label; `none` where it ends the program. -/
def afterLabel? : List String → Option (Option Command)
  | [] => some none
  | name :: operands => if isEnd name then none else some (some ⟨name, operands⟩)

/-- Reads the statements of token lines, of which the first has the number `line`. -/
def statements (line : Nat) : List (List String) → Except Diagnostic Body
  | [] => .ok ⟨[], false⟩
  | [] :: lines => statements (line + 1) lines
  | (first :: rest) :: lines =>
    if isEnd first then .ok ⟨[], true⟩
    else if isCommand first then
      return (← statements (line + 1) lines).cons ⟨line, none, some ⟨first, rest⟩⟩
    else if first.toList.head? = some '.' then .error ⟨line, .unknownDirective first⟩
    else if isLabelName first then
      match afterLabel? rest with
      | none => .ok ⟨[⟨line, some first, none⟩], true⟩
      | some command => return (← statements (line + 1) lines).cons ⟨line, some first, command⟩
    else .error ⟨line, .labelName first⟩

/-- The statements of a source whose program begins at the line of index `start`. The index counts
lines from zero, and no line stands at a negative one; behind the last line there are no
statements. -/
def bodyFrom (lines : List (List String)) (start : Nat) : Except Diagnostic Body :=
  statements (start + 1) (lines.drop start)

/-- The last line of a source, which stands for its end. -/
def lastLine (lines : List (List String)) : Nat :=
  max lines.length 1

end LC3.Assembly
