import LC3.Numeral

/-!
# Literals

A literal in assembly source is decimal behind `#` or hexadecimal behind `x`. One minus sign may
stand behind the marker, or in front of `x`. The digits are those of `LC3.Numeral`, and of a
decimal literal's number only the size counts: behind `#-`, a number may itself be a zero with a
sign or in hexadecimal.
-/

namespace LC3.Assembly.Literal

open Numeral

/-- The number with its sign changed if `negate` holds; `none` of a negative number. -/
def signed (negate : Bool) : Option Int → Option Int
  | some n => if n < 0 then none else some (if negate then -n else n)
  | none => none

/-- The value of hexadecimal digits, with its sign changed if `negate` holds. -/
def hexadecimal (negate : Bool) (s : List Char) : Option Int :=
  signed negate ((readHex? s).map fun n => (n : Int))

/-- The value of a decimal literal behind its marker and sign. Hexadecimal has its own marker. -/
def decimal (negate : Bool) (s : List Char) : Except Fault (Option Int) :=
  match s with
  | 'x' :: _ | 'X' :: _ => .ok none
  | s => return signed negate (← Numeral.read s)

/-- What may follow the hexadecimal marker: digits, or a minus sign and digits. -/
def afterMarker : List Char → Option Int
  | '-' :: s => hexadecimal true s
  | s => hexadecimal false s

/-- Reads a literal, or answers `none` where the text is none. -/
def read : List Char → Except Fault (Option Int)
  | '#' :: '-' :: s => decimal true s
  | '#' :: s => decimal false s
  | '-' :: 'x' :: s | '-' :: 'X' :: s => .ok (hexadecimal true s)
  | 'x' :: s | 'X' :: s => .ok (afterMarker s)
  | _ => .ok none

/-- The value of a token that is a literal. -/
def value? (token : String) : Except Fault (Option Int) :=
  read token.toList

end LC3.Assembly.Literal
