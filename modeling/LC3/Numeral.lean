import LC3.Fault

/-!
# Numerals

Integers are written in decimal, hexadecimal or binary. `read` is the notation for numbers: an
optional minus sign, then decimal digits, or `x` and hexadecimal digits. Decimal numerals are
limited to `maxDigits` digits in both directions; the other bases have no limit.
-/

namespace LC3.Numeral

/-! ## Writing -/

/-- The digits of `n`, with capital letters beyond nine. -/
def digits (base n : Nat) : List Char :=
  (Nat.toDigits base n).map Char.toUpper

/-- The numeral of `n`, filled up with zeros to `width` characters. A minus sign stands in front of
the zeros and counts. The width is a length, never negative: width zero leaves the numeral alone. -/
def padded (base width : Nat) (n : Int) : String :=
  if n < 0 then String.ofList ('-' :: List.leftpad (width - 1) '0' (digits base n.natAbs))
  else String.ofList (List.leftpad width '0' (digits base n.natAbs))

/-- Four hexadecimal digits, or more if the value needs them. -/
def hex (n : Int) : String :=
  padded 16 4 n

/-- The hexadecimal numeral of `n` behind a marker. The zeros that fill it up to `width`, a length
as in `padded`, stand in front of a minus sign. -/
def marked (marker : String) (width : Nat) (n : Int) : String :=
  let body := digits 16 n.natAbs
  marker ++ String.ofList (List.leftpad width '0' (if n < 0 then '-' :: body else body))

/-- An address as diagnostics show it, such as `x3000`. -/
def address (n : Int) : String :=
  marked "x" 4 n

/-- The decimal numeral of `n`. -/
def decimal (n : Int) : Except Fault String :=
  let body := Nat.toDigits 10 n.natAbs
  if maxDigits < body.length then .error .integerTooLong
  else .ok (String.ofList (if n < 0 then '-' :: body else body))

/-! ## Reading -/

/-- The value of an ASCII digit of the base, at most sixteen. -/
def digitValue? (base : Nat) (c : Char) : Option Nat :=
  let value? :=
    if '0' ≤ c ∧ c ≤ '9' then some (c.toNat - '0'.toNat)
    else if 'a' ≤ c ∧ c ≤ 'f' then some (c.toNat - 'a'.toNat + 10)
    else if 'A' ≤ c ∧ c ≤ 'F' then some (c.toNat - 'A'.toNat + 10)
    else none
  value?.filter (· < base)

/-- The number written by digits, the most significant first. -/
def valueOf (base : Nat) (ds : List Nat) : Nat :=
  ds.foldl (fun n d => base * n + d) 0

/-- The digit values of a text of one or more digits. -/
def digitValues? (base : Nat) (s : List Char) : Option (List Nat) :=
  if s.isEmpty then none else s.mapM (digitValue? base)

/-- Reads decimal digits, at most `maxDigits` of them. -/
def readDecimal (s : List Char) : Except Fault (Option Nat) :=
  match digitValues? 10 s with
  | none => .ok none
  | some ds =>
    if maxDigits < ds.length then .error (.numeralTooLong ds.length)
    else .ok (some (valueOf 10 ds))

def readHex? (s : List Char) : Option Nat :=
  (digitValues? 16 s).map (valueOf 16)

/-- Reads a number without its sign. -/
def readMagnitude : List Char → Except Fault (Option Nat)
  | 'x' :: s => .ok (readHex? s)
  | 'X' :: s => .ok (readHex? s)
  | s => readDecimal s

/-- Reads a number, or answers `none` where the text is none. -/
def read : List Char → Except Fault (Option Int)
  | '-' :: s => return (← readMagnitude s).map fun n => -(n : Int)
  | s => return (← readMagnitude s).map fun n => (n : Int)

end LC3.Numeral
