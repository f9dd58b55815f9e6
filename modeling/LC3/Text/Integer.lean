import LC3.Numeral
import LC3.Text.Blank
import LC3.Text.Digit

/-!
# Typed integers

An integer as users type it: blanks around it, a sign of either kind, decimal digits of any script,
and single underscores between digits. It has at most `maxDigits` digits.
-/

namespace LC3.Text

/-- Blanks that may stand around an integer. The separator controls are none of them. -/
def isOuterBlank (c : Char) : Bool :=
  isBlank c && !(0x1C ≤ c.toNat && c.toNat ≤ 0x1F)

/-- The text without the blanks around it. -/
def strip (s : List Char) : List Char :=
  ((s.dropWhile isOuterBlank).reverse.dropWhile isOuterBlank).reverse

/-- The values of digits, one at least, with single underscores between them. -/
def groupedDigits? : List Char → Option (List Nat)
  | [] => none
  | [c] => (decimalValue? c).map fun d => [d]
  | c :: '_' :: s => return (← decimalValue? c) :: (← groupedDigits? s)
  | c :: s => return (← decimalValue? c) :: (← groupedDigits? s)

/-- The number that grouped digits stand for, unless there are too many. -/
def typedMagnitude? (s : List Char) : Option Nat := do
  let ds ← groupedDigits? s
  if maxDigits < ds.length then none else return Numeral.valueOf 10 ds

/-- Reads an integer. -/
def typedInteger? (s : String) : Option Int :=
  match strip s.toList with
  | '-' :: ds => (typedMagnitude? ds).map fun n => -(n : Int)
  | '+' :: ds => (typedMagnitude? ds).map fun n => (n : Int)
  | ds => (typedMagnitude? ds).map fun n => (n : Int)

end LC3.Text
