import LC3.Listing
import LC3.Proofs.Assembly.Denotation
import LC3.Proofs.Assembly.Literal
import LC3.Proofs.Assembly.Token
import LC3.Proofs.SymbolTable

/-!
# The texts of words

`wordCommand` is the command that a word is shown as, and `shows_word` reads it off the word's text:
names, registers, numerals and labels are plain words, and the notes behind data are comments.
-/

namespace LC3.Listing

open Assembly Numeral

theorem plain_of_writes {base n : Nat} {s : List Char} (h : Writes base s n) :
    s.all isPlainChar = true := by
  refine List.all_eq_true.mpr fun c hc => ?_
  simp [isPlainChar, h.isAlphanum hc]

theorem plain_decimal (n : Int) : Plain ("#" ++ toString n) := by
  have hw := writes_digits 10 (by decide) (by decide) n.natAbs
  rw [digits_ten] at hw
  refine Plain.append (by decide) ?_
  rw [toList_toString]
  split
  · rw [List.all_cons, plain_of_writes hw]
    decide
  · exact plain_of_writes hw

theorem plain_marked (width n : Nat) : Plain (marked "x" width n) := by
  rw [marked_eq]
  refine Plain.append (by decide) ?_
  rw [String.toList_ofList]
  exact plain_of_writes (writes_leftpad width n)

theorem plain_register (r : Reg) : Plain (register r) := by
  revert r
  decide

theorem register?_register (r : Reg) : register? (register r) = some r := by
  revert r
  decide

theorem plain_source (s : Source) : Plain (source s) := by
  cases s with
  | register r => exact plain_register r
  | immediate v => exact plain_decimal v.toInt

/-! ## Instructions -/

/-- The command that an instruction is shown as. -/
def operation (symbols : SymbolTable) (a : Word) : Instruction → Command
  | .add dr sr s => ⟨"ADD", [register dr, register sr, source s]⟩
  | .and dr sr s => ⟨"AND", [register dr, register sr, source s]⟩
  | .not dr sr => ⟨"NOT", [register dr, register sr]⟩
  | .br n z p offset => ⟨"BR" ++ conditions n z p, [target symbols (some a) offset]⟩
  | .jmp base => if base = linkRegister then ⟨"RET", []⟩ else ⟨"JMP", [register base]⟩
  | .jsr offset => ⟨"JSR", [target symbols (some a) offset]⟩
  | .jsrr base => ⟨"JSRR", [register base]⟩
  | .ld r offset => ⟨"LD", [register r, target symbols (some a) offset]⟩
  | .ldi r offset => ⟨"LDI", [register r, target symbols (some a) offset]⟩
  | .lea r offset => ⟨"LEA", [register r, target symbols (some a) offset]⟩
  | .st r offset => ⟨"ST", [register r, target symbols (some a) offset]⟩
  | .sti r offset => ⟨"STI", [register r, target symbols (some a) offset]⟩
  | .ldr r base offset => ⟨"LDR", [register r, register base, "#" ++ toString offset.toInt]⟩
  | .str r base offset => ⟨"STR", [register r, register base, "#" ++ toString offset.toInt]⟩
  | .trap vector =>
    match routines.find? fun r => r.2 = vector with
    | some (name, _) => ⟨name, []⟩
    | none => ⟨"TRAP", [marked "x" 2 vector.toNat]⟩
  | .rti => ⟨"RTI", []⟩
  | .reserved => ⟨"RSRV", []⟩

/-- The tokens of a command. -/
def tokens (c : Command) : List String :=
  c.name :: c.operands

theorem shows_command {name : String} {operands : List String} (hn : Plain name)
    (ho : ∀ o ∈ operands, Plain o) : Shows (command name operands) (tokens ⟨name, operands⟩) := by
  rw [command, String.append_assoc]
  exact (Shows.operands ho).blank.word hn (by simp +decide)

theorem shows_name {name : String} (hn : Plain name) : Shows name (tokens ⟨name, []⟩) :=
  .plain hn

theorem plain_name (i : Instruction) : Plain i.name := by
  cases i with
  | jmp base =>
    rw [Instruction.name]
    split <;> decide
  | _ =>
    rw [Instruction.name]
    decide

theorem plain_conditions (n z p : Bool) : (conditions n z p).toList.all isPlainChar = true := by
  revert n z p
  decide

theorem plain_target {symbols : SymbolTable} (hs : ∀ name v, symbols[name]? = some v → Plain name)
    (a : Word) {n : Nat} (offset : BitVec n) : Plain (target symbols (some a) offset) := by
  unfold target
  cases h : symbols.nameOf? (a + 1 + offset.signExtend 16) with
  | none =>
    simp only [Option.bind_some, h]
    exact plain_decimal offset.toInt
  | some name =>
    obtain ⟨v, hv, -⟩ := SymbolTable.getElem?_of_nameOf? h
    simp only [Option.bind_some, h]
    exact hs name v hv

theorem shows_trap (symbols : SymbolTable) (a : Word) (vector : BitVec 8) :
    Shows (trap vector) (tokens (operation symbols a (.trap vector))) := by
  unfold trap operation
  split
  · rename_i name v hf
    have hm := List.mem_of_find?_eq_some hf
    have hp : ∀ r ∈ routines, Plain r.1 := by decide +kernel
    simp only [hf]
    exact shows_name (hp _ hm)
  · rename_i hf
    have hp := plain_marked 2 vector.toNat
    have hw := (shows_name hp).blank.word (show Plain "TRAP" by decide) (by simp +decide)
    simp only [hf]
    exact hw

theorem shows_instruction {symbols : SymbolTable}
    (hs : ∀ name v, symbols[name]? = some v → Plain name) (a : Word) (i : Instruction) :
    Shows (instruction symbols (some a) i) (tokens (operation symbols a i)) := by
  have hr := plain_register
  have ht {n : Nat} (offset : BitVec n) := plain_target hs a offset
  have hn := plain_name
  cases i with
  | add dr sr s | and dr sr s => exact shows_command (hn _) (by simp [hr, plain_source])
  | not dr sr => exact shows_command (hn _) (by simp [hr])
  | br n z p offset =>
    exact shows_command ((hn _).append (plain_conditions n z p)) (by simp [ht])
  | jmp base =>
    rw [instruction, operation]
    split
    · rename_i hb
      rw [hb]
      exact shows_name (hn _)
    · rename_i hb
      rw [Instruction.name, if_neg hb]
      exact shows_command (by decide) (by simp [hr])
  | jsr offset => exact shows_command (hn _) (by simp [ht])
  | jsrr base => exact shows_command (hn _) (by simp [hr])
  | ld r offset | ldi r offset | lea r offset | st r offset | sti r offset =>
    exact shows_command (hn _) (by simp [hr, ht])
  | ldr r base offset | str r base offset =>
    have ho : ∀ o ∈ [register r, register base, "#" ++ toString offset.toInt], Plain o := by
      simpa [hr] using plain_decimal offset.toInt
    exact shows_command (hn _) ho
  | trap vector => exact shows_trap symbols a vector
  | rti => exact shows_name (hn .rti)
  | reserved => exact shows_name (hn .reserved)

/-! ## Words -/

/-- A branch that tests no condition. -/
def neverTaken : Instruction → Bool
  | .br n z p _ => !(n || z || p)
  | _ => false

/-- The word is shown as an instruction, and not as data. -/
def IsWritten (w : Word) : Prop :=
  w.WellFormed ∧ neverTaken (decode w) = false

instance (w : Word) : Decidable (IsWritten w) :=
  inferInstanceAs (Decidable (w.WellFormed ∧ neverTaken (decode w) = false))

/-- The command that a word is shown as. -/
def wordCommand (symbols : SymbolTable) (a w : Word) : Command :=
  if IsWritten w then operation symbols a (decode w) else ⟨".FILL", ["x" ++ Numeral.hex w.toNat]⟩

theorem ne_reserved {w : Word} (h : w.WellFormed) : decode w ≠ .reserved := by
  intro hr
  rw [Word.WellFormed, hr] at h
  exact h

theorem word_of_isWritten {symbols : SymbolTable} {address : Option Word} {w : Word}
    (h : IsWritten w) : word symbols address w = instruction symbols address (decode w) := by
  obtain ⟨hw, hn⟩ := h
  unfold word
  split
  · rename_i hr
    exact absurd hr (ne_reserved hw)
  · rw [if_neg (by simpa using hw)]
    split
    · rename_i hb
      rw [hb] at hn
      cases hn
    · rfl

/-- Words that are not shown as instructions are data with a note. -/
theorem word_of_not_isWritten {symbols : SymbolTable} {address : Option Word} {w : Word}
    (h : ¬IsWritten w) :
    ∃ note, OneLine note ∧ word symbols address w = data w note := by
  unfold word
  split
  · exact ⟨_, by decide, rfl⟩
  · split
    · exact ⟨_, OneLine.append (by decide) (plain_name _).oneLine, rfl⟩
    · rename_i hw
      split
      · exact ⟨_, by decide, rfl⟩
      · rename_i hb
        refine absurd ⟨by simpa using hw, ?_⟩ h
        cases hd : decode w with
        | br n z p offset =>
          cases n <;> cases z <;> cases p <;> first | rfl | exact absurd hd (hb offset)
        | _ => rfl

theorem shows_data (w : Word) {note : String} (h : OneLine note) :
    Shows (data w note) [".FILL", "x" ++ Numeral.hex w.toNat] := by
  have hd : data w note =
      ".FILL" ++ (" " ++ (("x" ++ Numeral.hex w.toNat) ++ (" " ++ (";" ++ (" " ++ note))))) := by
    rw [data, ← String.toList_inj]
    simp
  have hb : OneLine (" " ++ note) := OneLine.append (by decide) h
  have hx : Plain ("x" ++ Numeral.hex w.toNat) := by
    rw [← marked_four]
    exact plain_marked 4 w.toNat
  rw [hd]
  exact ((Shows.comment hb).blank.word hx (by simp +decide)).blank.word
    (show Plain ".FILL" by decide) (by simp +decide)

theorem shows_word {symbols : SymbolTable} (hs : ∀ name v, symbols[name]? = some v → Plain name)
    (a w : Word) : Shows (word symbols (some a) w) (tokens (wordCommand symbols a w)) := by
  unfold wordCommand
  split
  · rename_i h
    rw [word_of_isWritten h]
    exact shows_instruction hs a (decode w)
  · rename_i h
    obtain ⟨note, hnote, hw⟩ := word_of_not_isWritten h
    rw [hw]
    exact shows_data w hnote

end LC3.Listing
