import LC3.Outcome
import LC3.Text.Blank
import LC3.Text.Split

/-!
# Raw images

A raw image is a text of digits, hexadecimal unless all of them are zeros and ones. Four
hexadecimal or sixteen binary digits make a word; blanks may stand anywhere and a semicolon starts
a comment. The first word is the origin, and there are no symbols.
-/

namespace LC3.Image

/-- The base that the digits of a raw image are in. -/
inductive Base where
  | binary
  | hexadecimal
  deriving DecidableEq, Repr

namespace Base

def radix : Base → Nat
  | binary => 2
  | hexadecimal => 16

/-- The digits of one word. -/
def wordDigits : Base → Nat
  | binary => 16
  | hexadecimal => 4

def name : Base → String
  | binary => "binary"
  | hexadecimal => "hexadecimal"

end Base

/-- Why a text is no raw image. -/
inductive RawFlaw where
  | badChar (line : Nat) (c : Char)
  /-- The digits do not make whole words. -/
  | length (digits : Nat) (base : Base)
  | empty
  deriving DecidableEq, Repr

def RawFlaw.message : RawFlaw → String
  | badChar line c =>
    s!"Line {line}: invalid character " ++ Text.quote c.toString ++ s!" (code point {c.toNat}); " ++
      "raw data may only contain 0 and 1 (binary) or the digits 0-9 and letters A-F " ++
      "(hexadecimal), and comments must start with a semicolon"
  | length digits base =>
    let noun := if digits = 1 then "character" else "characters"
    s!"invalid data length: found {digits} {noun}, but {base.name} data must be a multiple of " ++
      s!"{base.wordDigits} characters long"
  | empty => "raw data is empty; it needs at least an origin address"

/-- The lines of a raw image. Only a line feed ends a line. -/
def rawLines (s : List Char) : List (List Char) :=
  Text.splitOn '\n' s

/-- A line up to its comment. -/
def dropComment (line : List Char) : List Char :=
  line.takeWhile (· ≠ ';')

/-- The character may stand outside comments. -/
def isRawChar (c : Char) : Bool :=
  Text.isBlank c || (Numeral.digitValue? 16 c).isSome

/-- The first character that may not stand in lines, with its line; the first line is `line`. -/
def findBadChar (line : Nat) : List (List Char) → Option (Nat × Char)
  | [] => none
  | s :: lines =>
    match s.find? (!isRawChar ·) with
    | some c => some (line, c)
    | none => findBadChar (line + 1) lines

/-- The base of digits: binary if all of them can be. -/
def baseOf (ds : List Char) : Base :=
  if ds.all fun c => c = '0' || c = '1' then .binary else .hexadecimal

/-- Cuts a list into groups of `n`, one at least; the last group may be shorter. -/
def groups {α : Type} (n : Nat) : List α → List (List α)
  | [] => []
  | a :: s => (a :: s.take (n - 1)) :: groups n (s.drop (n - 1))
termination_by s => s.length
decreasing_by
  simp only [List.length_drop, List.length_cons]
  omega

/-- The number that a group of digits stands for. -/
def groupValue (base : Base) (ds : List Char) : Int :=
  (Numeral.valueOf base.radix (ds.filterMap (Numeral.digitValue? base.radix)) : Nat)

/-- The program of a list of words, the origin first. -/
def programOf : List Int → Option Program
  | [] => none
  | orig :: code => some { orig, code, symbols := ∅ }

/-- The program that a raw image holds. -/
def programOfRaw (text : String) : Except RawFlaw Program :=
  let lines := (rawLines text.toList).map dropComment
  match findBadChar 1 lines with
  | some (line, c) => .error (.badChar line c)
  | none =>
    let ds := lines.flatten.filter (!Text.isBlank ·)
    let base := baseOf ds
    if ds.length % base.wordDigits ≠ 0 then .error (.length ds.length base)
    else
      match programOf ((groups base.wordDigits ds).map (groupValue base)) with
      | some p => .ok p
      | none => .error .empty

/-- Reads a raw image. -/
def readRaw (text : String) : Outcome :=
  match programOfRaw text with
  | .ok p => .success p
  | .error flaw => .failure flaw.message

end LC3.Image
