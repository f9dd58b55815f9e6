import LC3.Proofs.Assembly.Name
import LC3.Proofs.Listing.Text

/-!
# Printed words are encoded again

What the command of a word is encoded as once the labels of the text are bound to their addresses
(`words_wordCommand`): the word itself, unless a label is shown for a target outside memory. Labels
are shown by addresses modulo 2^16, while the offset to a label is never wrapped.
-/

namespace LC3

/-- The offset that an instruction adds to the program counter. A branch that is never taken adds
none. -/
def Instruction.reach? : Instruction → Option Int
  | br n z p offset => if n || z || p then some offset.toInt else none
  | jsr offset => some offset.toInt
  | ld _ offset | ldi _ offset | lea _ offset | st _ offset | sti _ offset => some offset.toInt
  | _ => none

theorem Instruction.reach?_bounds {i : Instruction} {d : Int} (h : i.reach? = some d) :
    -1024 ≤ d ∧ d ≤ 1023 := by
  have h9 (v : BitVec 9) : -256 ≤ v.toInt ∧ v.toInt < 256 := ⟨BitVec.le_toInt v, BitVec.toInt_lt⟩
  have h11 (v : BitVec 11) : -1024 ≤ v.toInt ∧ v.toInt < 1024 :=
    ⟨BitVec.le_toInt v, BitVec.toInt_lt⟩
  cases i with
  | br n z p offset =>
    rw [reach?] at h
    split at h
    · cases h
      have := h9 offset
      omega
    · cases h
  | jsr offset =>
    cases h
    have := h11 offset
    omega
  | ld _ offset | ldi _ offset | lea _ offset | st _ offset | sti _ offset =>
    cases h
    have := h9 offset
    omega
  | _ => cases h

namespace Listing

open Assembly Numeral

/-! ## Labels -/

/-- The label at the cell of a target has another address than the target, which lies outside
memory. -/
def Wraps (labels : SymbolTable) (target : Int) : Prop :=
  ∃ (name : String) (v : Int),
    labels[name]? = some v ∧ Word.ofInt v = Word.ofInt target ∧ v ≠ target

/-- The symbols can be written as labels of cells. -/
structure AreLabels (labels : SymbolTable) : Prop where
  isLabelName : ∀ (name : String) (v : Int), labels[name]? = some v → isLabelName name = true
  isCommand : ∀ (name : String) (v : Int), labels[name]? = some v → isCommand name = false
  range : ∀ (name : String) (v : Int), labels[name]? = some v → 0 ≤ v ∧ v < memorySize

/-- The table binds the labels that are shown. -/
structure Resolves (table labels : SymbolTable) : Prop extends AreLabels labels where
  bound : ∀ (name : String) (v : Int), labels[name]? = some v →
    labels.nameOf? (Word.ofInt v) = some name → table[name]? = some v

/-! ## Operands -/

theorem ofInt_inj_of_near {m n : Int} (h : Word.ofInt m = Word.ofInt n) (h1 : m - n < 0x10000)
    (h2 : n - m < 0x10000) : m = n := by
  rw [Word.ofInt_eq_iff, Word.toNat_ofInt] at h
  omega

theorem ofInt_target (address : Int) {n : Nat} (offset : BitVec n) :
    Word.ofInt address + 1 + offset.signExtend 16 = Word.ofInt (address + 1 + offset.toInt) := by
  simp only [Word.ofInt, BitVec.ofInt_add, BitVec.signExtend]
  rfl

theorem sourceOf_source (s : Source) : SourceOf (source s) s := by
  cases s with
  | register r =>
    refine .register ?_ (register?_register r)
    revert r
    decide
  | immediate v =>
    have hv := field_bounds v
    have hmin : fieldMin 5 = -16 := rfl
    have hmax : fieldMax 5 = 15 := rfl
    exact .immediate (Literal.value?_decimal (Numeral.lt_maxDigits (by omega)))

theorem toInt_bounds {n : Nat} (h16 : n ≤ 16) (v : BitVec n) :
    -0x8000 ≤ v.toInt ∧ v.toInt < 0x8000 :=
  (Word.inField_toInt v).mono h16

theorem offsetField_decimal (s : Site) {n : Nat} (h0 : 0 < n) (h16 : n ≤ 16) (offset : BitVec n) :
    s.offsetField ("#" ++ toString offset.toInt) n = .ok offset := by
  have := toInt_bounds h16 offset
  rw [offsetField_eq_ok h0]
  exact .literal (Literal.value?_decimal (Numeral.lt_maxDigits (by omega)))

theorem offsetField_target {table labels : SymbolTable} (hl : Resolves table labels)
    {name : String} {address : Int} {n : Nat} (h0 : 0 < n) (h16 : n ≤ 16) {offset v : BitVec n} :
    (Site.mk name (address + 1) table).offsetField
        (target labels (some (Word.ofInt address)) offset) n = .ok v ↔
      v = offset ∧ ¬Wraps labels (address + 1 + offset.toInt) := by
  unfold target
  simp only [Option.bind_some, ofInt_target]
  cases hn : labels.nameOf? (Word.ofInt (address + 1 + offset.toInt)) with
  | none =>
    have hw : ¬Wraps labels (address + 1 + offset.toInt) := by
      rintro ⟨name, v, hv, he, -⟩
      exact SymbolTable.nameOf?_eq_none hn hv he
    have hd := offsetField_decimal ⟨name, address + 1, table⟩ h0 h16 offset
    constructor
    · intro h
      exact ⟨Except.ok.inj (h.symm.trans hd), hw⟩
    · rintro ⟨rfl, -⟩
      exact hd
  | some name =>
    obtain ⟨a, ha, he⟩ := SymbolTable.getElem?_of_nameOf? hn
    have hb := hl.bound name a ha (he ▸ hn)
    have hvalue := value?_of_isLabelName (hl.isLabelName name a ha)
    have hoffset := toInt_bounds h16 offset
    have hv := toInt_bounds h16 v
    have hof : OffsetOf (address + 1) table name v.toInt ↔ a = address + 1 + v.toInt := by
      constructor
      · rintro (h | ⟨-, h⟩)
        · rw [hvalue] at h
          cases h
        · exact Option.some.inj (hb.symm.trans h)
      · intro h
        exact .label hvalue (h ▸ hb)
    rw [Option.getD_some, offsetField_eq_ok h0, hof]
    constructor
    · -- Targets of fields of at most 16 bits are too close to differ by a multiple of 2^16.
      intro h
      have hsame : address + 1 + v.toInt = address + 1 + offset.toInt :=
        ofInt_inj_of_near (h ▸ he) (by omega) (by omega)
      refine ⟨BitVec.eq_of_toInt_eq (by omega), ?_⟩
      rintro ⟨name', a', ha', he', hne⟩
      have hr := hl.range name a ha
      have hr' := hl.range name' a' ha'
      have hm : (memorySize : Int) = 0x10000 := rfl
      refine hne ?_
      rw [← hsame, ← h]
      exact ofInt_inj_of_near (he'.trans he.symm) (by omega) (by omega)
    · rintro ⟨rfl, hw⟩
      by_contra hne
      exact hw ⟨name, a, ha, he, hne⟩

/-! ## Instructions -/

theorem register_register (r : Reg) : Assembly.register (register r) = .ok r :=
  register_eq_ok.mpr (register?_register r)

theorem source_source (s : Source) : Assembly.source (source s) = .ok s :=
  source_eq_ok.mpr (sourceOf_source s)

theorem trapVector_marked (vector : BitVec 8) :
    trapVector (marked "x" 2 vector.toNat) = .ok vector := by
  rw [trapVector_eq_ok, Literal.value?_marked]

/-- The mnemonic that an instruction is written with. -/
def mnemonic : Instruction → Mnemonic
  | .add .. => .add
  | .and .. => .and
  | .not .. => .not
  | .br n z p _ => .br n z p
  | .jmp base => if base = linkRegister then .ret else .jmp
  | .jsr _ => .jsr
  | .jsrr _ => .jsrr
  | .ld .. => .ld
  | .ldi .. => .ldi
  | .lea .. => .lea
  | .st .. => .st
  | .sti .. => .sti
  | .ldr .. => .ldr
  | .str .. => .str
  | .trap vector => if (routines.find? fun r => r.2 = vector).isSome then .routine vector else .trap
  | .rti | .reserved => .rti

theorem ofName?_upper :
    ∀ e ∈ Mnemonic.table, Mnemonic.ofName? (Text.upper e.1) = some e.2 := by
  decide +kernel

theorem ofName?_conditions :
    ∀ n z p : Bool, (!(n || z || p)) = false →
      Mnemonic.ofName? (Text.upper ("BR" ++ conditions n z p)) = some (.br n z p) := by
  decide +kernel

theorem ofName?_of_mem_table {name : String} {m : Mnemonic} (h : (name, m) ∈ Mnemonic.table) :
    Mnemonic.ofName? (Text.upper name) = some m :=
  ofName?_upper (name, m) h

theorem ofName?_operation (labels : SymbolTable) (a : Word) {i : Instruction} (hr : i ≠ .reserved)
    (hn : neverTaken i = false) :
    Mnemonic.ofName? (Text.upper (operation labels a i).name) = some (mnemonic i) := by
  cases i with
  | br n z p offset => exact ofName?_conditions n z p hn
  | jmp base =>
    dsimp only [operation, mnemonic]
    split <;> dsimp only <;> exact ofName?_of_mem_table (by decide)
  | trap vector =>
    dsimp only [operation, mnemonic]
    cases hf : routines.find? fun r => r.2 = vector with
    | none => exact (ofName?_of_mem_table (by decide) :
        Mnemonic.ofName? (Text.upper "TRAP") = some .trap)
    | some r =>
      have hm := List.mem_of_find?_eq_some hf
      have hv : r.2 = vector := by simpa using List.find?_some hf
      have hall : ∀ r ∈ routines, (r.1, Mnemonic.routine r.2) ∈ Mnemonic.table := by decide
      rw [← hv]
      exact ofName?_of_mem_table (hall r hm)
  | reserved => exact absurd rfl hr
  | _ =>
    dsimp only [operation, mnemonic]
    exact ofName?_of_mem_table (by decide)

section

variable {labels : SymbolTable} {pc : Int} {j : Instruction}

theorem ok_iff {i : Instruction} (hi : i.reach? = none) :
    (Except.ok i : Except Cause Instruction) = .ok j ↔
      j = i ∧ ∀ d, i.reach? = some d → ¬Wraps labels (pc + d) := by
  simp [hi, eq_comm]

theorem bind_offset_iff {n : Nat} {x : Except Cause (BitVec n)} {offset : BitVec n}
    {make : BitVec n → Instruction} (hi : (make offset).reach? = some offset.toInt)
    (hx : ∀ v, x = .ok v ↔ v = offset ∧ ¬Wraps labels (pc + offset.toInt)) :
    (x >>= fun v => pure (make v)) = .ok j ↔
      j = make offset ∧ ∀ d, (make offset).reach? = some d → ¬Wraps labels (pc + d) := by
  simp only [bind_eq_ok, pure_eq_ok, hx, hi, Option.some.injEq]
  constructor
  · rintro ⟨v, ⟨rfl, hw⟩, rfl⟩
    exact ⟨rfl, fun d hd => hd ▸ hw⟩
  · rintro ⟨rfl, hw⟩
    exact ⟨offset, ⟨rfl, hw _ rfl⟩, rfl⟩

end

/-- The command of an instruction stands for the instruction, unless a label is shown for a target
outside memory. -/
theorem instruction_operation {table labels : SymbolTable} (hl : Resolves table labels)
    (address : Int) {i j : Instruction} (hr : i ≠ .reserved) (hn : neverTaken i = false) :
    (operation labels (Word.ofInt address) i).instruction (address + 1) table = .ok j ↔
      j = i ∧ ∀ d, i.reach? = some d → ¬Wraps labels (address + 1 + d) := by
  have hname := ofName?_operation labels (Word.ofInt address) hr hn
  unfold Command.instruction
  rw [hname]
  cases i with
  | br n z p offset =>
    refine bind_offset_iff ?_ fun v => offsetField_target hl (by decide) (by decide)
    rw [neverTaken, Bool.not_eq_false'] at hn
    rw [Instruction.reach?, if_pos hn]
  | jsr offset =>
    exact bind_offset_iff rfl fun v => offsetField_target hl (by decide) (by decide)
  | ld r offset | ldi r offset | lea r offset | st r offset | sti r offset =>
    simp only [operation, mnemonic, Mnemonic.instruction, register_register]
    exact bind_offset_iff rfl fun v => offsetField_target hl (by decide) (by decide)
  | ldr r base offset | str r base offset =>
    have hd (s : Site) := offsetField_decimal s (by decide) (by decide) offset
    simp only [operation, mnemonic, Mnemonic.instruction, register_register, hd]
    exact ok_iff rfl
  | add dr sr s | and dr sr s =>
    simp only [operation, mnemonic, Mnemonic.instruction, register_register, source_source]
    exact ok_iff rfl
  | not dr sr =>
    simp only [operation, mnemonic, Mnemonic.instruction, register_register]
    exact ok_iff rfl
  | jmp base =>
    dsimp only [operation, mnemonic]
    split
    · rename_i hb
      rw [hb]
      exact ok_iff rfl
    · simp only [Mnemonic.instruction, register_register]
      exact ok_iff rfl
  | jsrr base =>
    simp only [operation, mnemonic, Mnemonic.instruction, register_register]
    exact ok_iff rfl
  | trap vector =>
    dsimp only [operation, mnemonic]
    cases hf : routines.find? fun r => r.2 = vector with
    | none =>
      simp only [Option.isSome_none, Bool.false_eq_true, ↓reduceIte, Mnemonic.instruction,
        trapVector_marked]
      exact ok_iff rfl
    | some r => exact ok_iff rfl
  | rti => exact ok_iff rfl
  | reserved => exact absurd rfl hr

/-! ## Words -/

theorem isDirective_fill (operands : List String) :
    (Command.mk ".FILL" operands).isDirective = true :=
  (by decide : decide ((".FILL" : String).toList.head? = some '.') = true)

theorem ofName?_fill : Directive.ofName? (Text.upper ".FILL") = some .fill := by
  decide

theorem words_fill (w : Word) (symbols : SymbolTable) (address : Int) :
    (Command.mk ".FILL" ["x" ++ Numeral.hex w.toNat]).words symbols address = .ok [w] := by
  have hv : Literal.value? ("x" ++ Numeral.hex w.toNat) = .ok (some (w.toNat : Int)) := by
    rw [← marked_four, Literal.value?_marked]
  have hfill : fillWord ("x" ++ Numeral.hex w.toNat) symbols = .ok w :=
    bind_eq_ok.mpr ⟨_, orFault_eq_ok.mpr hv, congrArg Except.ok w.ofInt_toNat⟩
  rw [Command.words, if_pos (isDirective_fill _), Command.directiveWords, ofName?_fill]
  simp only [Directive.words, hfill]
  rfl

/-- A word's command is read as a command, and it takes up one word. -/
structure IsEntry (c : Command) : Prop where
  isCommand : isCommand c.name = true
  isEnd : isEnd c.name = false
  reservation : c.reservation = .ok .word

theorem isEntry_wordCommand (labels : SymbolTable) (a w : Word) :
    IsEntry (wordCommand labels a w) := by
  unfold wordCommand
  split
  · rename_i hw
    have hn := ofName?_operation labels a (ne_reserved hw.1) hw.2
    refine ⟨isCommand_of_ofName? hn, isEnd_of_ofName? hn, ?_⟩
    rw [Command.reservation, isDirective_of_ofName? hn]
    rfl
  · have hc : Assembly.isCommand ".FILL" = true := by decide +kernel
    have he : Assembly.isEnd ".FILL" = false := by decide
    refine ⟨hc, he, ?_⟩
    rw [Command.reservation, if_pos (isDirective_fill _), ofName?_fill]
    rfl

theorem reach?_of_not_isWritten {w : Word} (h : ¬IsWritten w) : (decode w).reach? = none := by
  cases hd : decode w with
  | br n z p offset =>
    have hw : w.WellFormed := by rw [Word.WellFormed, hd]; trivial
    rw [Instruction.reach?]
    refine if_neg fun hn => h ⟨hw, ?_⟩
    rw [hd, neverTaken, hn]
    rfl
  | jsr | ld | ldi | lea | st | sti =>
    refine absurd ⟨?_, ?_⟩ h
    · rw [Word.WellFormed, hd]
      trivial
    · rw [hd]
      rfl
  | _ => rfl

/-- What the command of a word is encoded as: the word, unless a label is shown for a target outside
memory. -/
theorem words_wordCommand {table labels : SymbolTable} (hl : Resolves table labels) (address : Int)
    (w : Word) {ws : List Word} :
    (wordCommand labels (Word.ofInt address) w).words table address = .ok ws ↔
      ws = [w] ∧ ∀ d, (decode w).reach? = some d → ¬Wraps labels (address + 1 + d) := by
  unfold wordCommand Command.words
  split
  · rename_i hw
    have hr := ne_reserved hw.1
    have hn := ofName?_operation labels (Word.ofInt address) hr hw.2
    rw [isDirective_of_ofName? hn, if_neg (by decide)]
    simp only [Command.instructionWord, bind_eq_ok, pure_eq_ok,
      instruction_operation hl address hr hw.2]
    constructor
    · rintro ⟨_, ⟨i, ⟨rfl, hwrap⟩, rfl⟩, rfl⟩
      rw [encode_decode hw.1]
      exact ⟨rfl, hwrap⟩
    · rintro ⟨rfl, hwrap⟩
      exact ⟨w, ⟨_, ⟨rfl, hwrap⟩, encode_decode hw.1⟩, rfl⟩
  · rename_i hw
    have hfill := words_fill w table address
    rw [Command.words] at hfill
    rw [hfill, reach?_of_not_isWritten hw]
    constructor
    · intro h
      exact ⟨(Except.ok.inj h).symm, by simp⟩
    · rintro ⟨rfl, -⟩
      rfl

end Listing

end LC3
