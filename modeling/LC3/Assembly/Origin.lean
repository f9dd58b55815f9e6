import LC3.Assembly.Statement

/-!
# The origin

A program begins with an `.ORIG` line, the first line that is not empty. Its operand is the address
of the first word.
-/

namespace LC3.Assembly

structure Origin where
  address : Int
  /-- The index of the line behind `.ORIG`, counted from zero. -/
  start : Nat
  deriving DecidableEq, Repr

def isOrigin (token : String) : Bool :=
  Text.upper token = ".ORIG"

/-- The address of an `.ORIG` line. -/
def originAddress : List String → Except Cause Int
  | [] => .error .missingOrigin
  | first :: operands => do
    if !(first :: operands).any isOrigin then throw .missingOrigin
    if !isOrigin first then throw .labelledOrigin
    match operands with
    | [operand] =>
      match ← orFault (Literal.value? operand) with
      | none => throw (.originLiteral operand)
      | some address =>
        if 0 ≤ address ∧ address < memorySize then return address
        throw (.originRange operand)
    | _ => throw (.originOperands operands.length)

/-- Finds the origin of a source. -/
def findOrigin (lines : List (List String)) : Except Diagnostic Origin :=
  match lines.findIdx? (!·.isEmpty) with
  | none => .error ⟨1, .emptyProgram⟩
  | some index => do
    let address ← atLine (index + 1) (originAddress (lines.getD index []))
    return ⟨address, index + 1⟩

end LC3.Assembly
