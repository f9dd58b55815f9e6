import LC3.Fault

/-!
# Machine words

A word has sixteen bits. Integers are unbounded everywhere else; `Word.ofInt` wraps them, and
`toNat` and `toInt` give the unsigned and the signed value back.
-/

namespace LC3

abbrev Word := BitVec 16

namespace Word

/-- The word congruent to `n` modulo 2^16. -/
def ofInt (n : Int) : Word :=
  BitVec.ofInt 16 n

/-- The value of the low `bits` bits of `n` as a signed field, wrapped to a word. -/
def signedField (n : Int) (bits : Nat) : Int :=
  (ofInt (n.bmod (1 <<< bits))).toInt

/-- As `signedField`; a field has at least one bit. -/
def signedField? (n bits : Int) : Except Fault Int :=
  if bits ≤ 0 then .error .shiftCount else .ok (signedField n bits.toNat)

end Word

/-- The addresses of memory, one for each word. -/
def memorySize : Nat := 0x10000

end LC3
