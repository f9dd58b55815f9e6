import LC3.Instruction

/-!
# Decoding and encoding

`decode` is total: every word is some instruction. `encode` writes an instruction with its fixed
bits as the architecture demands them, and `WellFormed` tells the words that have them so.
-/

namespace LC3

/-- The register field of `w` whose lowest bit is `low`. -/
def Word.register (w : Word) (low : Nat) : Reg :=
  w.extractLsb' low 3

/-- The last operand of an operate instruction: bit 5 selects its kind. -/
def Word.source (w : Word) : Source :=
  if w.getLsbD 5 then .immediate (w.extractLsb' 0 5) else .register (w.register 0)

def decode (w : Word) : Instruction :=
  match (w.extractLsb' 12 4).toNat with
  | 0 => .br (w.getLsbD 11) (w.getLsbD 10) (w.getLsbD 9) (w.extractLsb' 0 9)
  | 1 => .add (w.register 9) (w.register 6) w.source
  | 2 => .ld (w.register 9) (w.extractLsb' 0 9)
  | 3 => .st (w.register 9) (w.extractLsb' 0 9)
  | 4 => if w.getLsbD 11 then .jsr (w.extractLsb' 0 11) else .jsrr (w.register 6)
  | 5 => .and (w.register 9) (w.register 6) w.source
  | 6 => .ldr (w.register 9) (w.register 6) (w.extractLsb' 0 6)
  | 7 => .str (w.register 9) (w.register 6) (w.extractLsb' 0 6)
  | 8 => .rti
  | 9 => .not (w.register 9) (w.register 6)
  | 10 => .ldi (w.register 9) (w.extractLsb' 0 9)
  | 11 => .sti (w.register 9) (w.extractLsb' 0 9)
  | 12 => .jmp (w.register 6)
  | 13 => .reserved
  | 14 => .lea (w.register 9) (w.extractLsb' 0 9)
  | _ => .trap (w.extractLsb' 0 8)

def Instruction.encode : Instruction → Word
  | br n z p offset => 0#4 ++ BitVec.ofBool n ++ BitVec.ofBool z ++ BitVec.ofBool p ++ offset
  | add dr sr (.register r) => 1#4 ++ dr ++ sr ++ 0#3 ++ r
  | add dr sr (.immediate v) => 1#4 ++ dr ++ sr ++ 1#1 ++ v
  | ld dr offset => 2#4 ++ dr ++ offset
  | st sr offset => 3#4 ++ sr ++ offset
  | jsr offset => 4#4 ++ 1#1 ++ offset
  | jsrr base => 4#4 ++ 0#3 ++ base ++ 0#6
  | and dr sr (.register r) => 5#4 ++ dr ++ sr ++ 0#3 ++ r
  | and dr sr (.immediate v) => 5#4 ++ dr ++ sr ++ 1#1 ++ v
  | ldr dr base offset => 6#4 ++ dr ++ base ++ offset
  | str sr base offset => 7#4 ++ sr ++ base ++ offset
  | rti => 8#4 ++ 0#12
  | not dr sr => 9#4 ++ dr ++ sr ++ 0x3F#6
  | ldi dr offset => 10#4 ++ dr ++ offset
  | sti sr offset => 11#4 ++ sr ++ offset
  | jmp base => 12#4 ++ 0#3 ++ base ++ 0#6
  | reserved => 13#4 ++ 0#12
  | lea dr offset => 14#4 ++ dr ++ offset
  | trap vector => 15#4 ++ 0#4 ++ vector

/-- The bits of `w` that its instruction leaves unused hold the values that the architecture
demands. No word with the reserved opcode is well formed. -/
def Word.WellFormed (w : Word) : Prop :=
  match decode w with
  | .add _ _ (.register _) | .and _ _ (.register _) => w.extractLsb' 3 2 = 0
  | .jmp _ => w.extractLsb' 9 3 = 0 ∧ w.extractLsb' 0 6 = 0
  | .jsrr _ => w.extractLsb' 9 2 = 0 ∧ w.extractLsb' 0 6 = 0
  | .not _ _ => w.extractLsb' 0 6 = 0x3F
  | .trap _ => w.extractLsb' 8 4 = 0
  | .rti => w.extractLsb' 0 12 = 0
  | .reserved => False
  | _ => True

instance (w : Word) : Decidable w.WellFormed := by
  unfold Word.WellFormed
  split <;> infer_instance

end LC3
