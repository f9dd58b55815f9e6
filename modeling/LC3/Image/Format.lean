import LC3.Image.Raw

/-!
# Written images

A program is written as text, one word a line in hexadecimal or binary, or as an object image: two
bytes for each word, the high byte first. The origin is the first word in all of them. Symbols are
not kept.
-/

namespace LC3.Image

/-- The written forms of a program. -/
inductive Format where
  | hex
  | bin
  | obj
  deriving DecidableEq, Repr

namespace Format

def name : Format → String
  | hex => "hex"
  | bin => "bin"
  | obj => "obj"

def all : List Format :=
  [hex, bin, obj]

def ofName? (s : String) : Option Format :=
  all.find? fun f => f.name = s

end Format

end Image

/-- A written program. -/
inductive Image where
  | text (s : String)
  | bytes (bs : List UInt8)
  deriving DecidableEq

namespace Image

/-- The words of an image: the origin, then the code. -/
def wordsOf (p : Program) : List Int :=
  p.orig :: p.code

/-- One word a line. -/
def lines (numeral : Int → String) (words : List Int) : String :=
  String.join (words.map fun w => numeral w ++ "\n")

/-! ## Object images -/

/-- The two bytes of a word; an object image cannot hold any other integer. -/
def wordBytes (w : Int) : Except Fault (List UInt8) :=
  if w < 0 then .error .wordNegative
  else if memorySize ≤ w then .error .wordTooBig
  else .ok [UInt8.ofNat (w.toNat / 256), UInt8.ofNat w.toNat]

def objectBytes (words : List Int) : Except Fault (List UInt8) :=
  return (← words.mapM wordBytes).flatten

/-- The words of pairs of bytes; `none` if a byte is left over. -/
def wordsOfBytes? : List UInt8 → Option (List Int)
  | [] => some []
  | [_] => none
  | high :: low :: bs => do
    let words ← wordsOfBytes? bs
    return (256 * high.toNat + low.toNat : Nat) :: words

/-- Reads an object image. -/
def readObject (bs : List UInt8) : Except Fault Program :=
  match (wordsOfBytes? bs).bind programOf with
  | some p => .ok p
  | none =>
    .error (.diagnostic ("object image must hold a whole number of words (at least the origin), " ++
      s!"got {bs.length} bytes") none)

/-! ## Writing -/

/-- Writes a program. -/
def write (p : Program) : Format → Except Fault Image
  | .hex => .ok (.text (lines Numeral.hex (wordsOf p)))
  | .bin => .ok (.text (lines (Numeral.padded 2 16) (wordsOf p)))
  | .obj => return .bytes (← objectBytes (wordsOf p))

end Image

end LC3
