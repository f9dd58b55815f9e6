import LC3.Proofs.Listing.Encoding

/-!
# The words of instructions

Which numbers the lines of instructions are encoded as, over all operands, addresses and symbols:
the well-formed words other than branches that are never taken. They are the words that listings
show as instructions; every other word is shown as data, and the data is encoded as the word again.
-/

namespace LC3.Listing

open Assembly

/-- Some tokens are encoded as the number, in front of some address and with some symbols. -/
def IsInstructionWord (n : Int) : Prop :=
  ∃ (tokens : List String) (c : Command) (pc : Int) (symbols : SymbolTable) (w : Word),
    Command.ofTokens? tokens = .ok c ∧ c.instructionWord pc symbols = .ok w ∧ (w.toNat : Int) = n

/-! ## Encoded lines -/

theorem neverTaken_eq_false {i : Instruction} :
    neverTaken i = false ↔ ∀ offset, i ≠ .br false false false offset := by
  cases i with
  | br n z p offset => cases n <;> cases z <;> cases p <;> simp [neverTaken]
  | _ => simp [neverTaken]

/-- No line stands for the reserved instruction or for a branch that is never taken. -/
theorem ne_reserved_of_denotes {pc : Int} {symbols : SymbolTable} {name : String}
    {operands : List String} {i : Instruction} (h : Denotes pc symbols name operands i) :
    i ≠ .reserved ∧ neverTaken i = false := by
  cases h with
  | branch hany ha =>
    refine ⟨by rintro ⟨⟩, ?_⟩
    rw [neverTaken, Bool.not_eq_false', Bool.or_eq_true, Bool.or_eq_true, or_assoc]
    exact hany
  | pcRelative hm ha hb =>
    simp only [pcRelatives, List.mem_cons, Prod.mk.injEq, List.not_mem_nil, or_false] at hm
    rcases hm with ⟨-, rfl⟩ | ⟨-, rfl⟩ | ⟨-, rfl⟩ | ⟨-, rfl⟩ | ⟨-, rfl⟩ <;>
      exact ⟨by rintro ⟨⟩, rfl⟩
  | baseRelative hm ha hb hc =>
    simp only [baseRelatives, List.mem_cons, Prod.mk.injEq, List.not_mem_nil, or_false] at hm
    rcases hm with ⟨-, rfl⟩ | ⟨-, rfl⟩ <;> exact ⟨by rintro ⟨⟩, rfl⟩
  | _ => exact ⟨by rintro ⟨⟩, rfl⟩

theorem isWritten_of_instructionWord {c : Command} {pc : Int} {symbols : SymbolTable} {w : Word}
    (h : c.instructionWord pc symbols = .ok w) : IsWritten w := by
  simp only [Command.instructionWord, Command.instruction, bind_eq_ok, pure_eq_ok] at h
  obtain ⟨i, hi, rfl⟩ := h
  split at hi
  · cases hi
  · rename_i m hm
    obtain ⟨hr, hn⟩ := ne_reserved_of_denotes (denotes_of_instruction hm hi)
    exact ⟨wellFormed_encode hr, by rw [decode_encode]; exact hn⟩

/-- Without labels, the command that an instruction is shown as is encoded as its word. -/
theorem instructionWord_operation (address : Int) {w : Word} (hw : IsWritten w) :
    (operation ∅ (Word.ofInt address) (decode w)).instructionWord (address + 1) ∅ = .ok w := by
  have hnone (name : String) (v : Int) (P : Prop) : (∅ : SymbolTable)[name]? = some v → P := by
    simp
  have hl : Resolves ∅ ∅ :=
    ⟨⟨fun name v => hnone name v _, fun name v => hnone name v _, fun name v => hnone name v _⟩,
      fun name v h => hnone name v _ h⟩
  have hi := (instruction_operation (j := decode w) hl address (ne_reserved hw.1) hw.2).mpr
    ⟨rfl, fun d _ ⟨name, v, hv, _⟩ => hnone name v _ hv⟩
  simp only [Command.instructionWord, bind_eq_ok, pure_eq_ok]
  exact ⟨decode w, hi, encode_decode hw.1⟩

theorem isInstructionWord_iff {n : Int} :
    IsInstructionWord n ↔ (0 ≤ n ∧ n ≤ 0xFFFF) ∧ IsWritten (Word.ofInt n) := by
  constructor
  · rintro ⟨tokens, c, pc, symbols, w, -, hw, rfl⟩
    have hlt := w.isLt
    rw [Word.ofInt_toNat]
    exact ⟨by omega, isWritten_of_instructionWord hw⟩
  · rintro ⟨hn, hw⟩
    refine ⟨tokens (operation ∅ (Word.ofInt 0) (decode (Word.ofInt n))), _, 1, ∅, Word.ofInt n, rfl,
      instructionWord_operation 0 hw, ?_⟩
    exact Word.toNat_ofInt_of_range hn.1 hn.2

/-! ## Words shown as data -/

/-- The text begins with a character, and not with a dot. -/
def StartsPlain (text : String) : Prop :=
  text.toList.head?.any (· ≠ '.') = true

instance (text : String) : Decidable (StartsPlain text) :=
  inferInstanceAs (Decidable (_ = true))

theorem StartsPlain.append {s : String} (h : StartsPlain s) (t : String) : StartsPlain (s ++ t) := by
  unfold StartsPlain at h ⊢
  cases hs : s.toList <;> simp_all

theorem startsPlain_name (i : Instruction) : StartsPlain i.name := by
  cases i with
  | jmp base =>
    rw [Instruction.name]
    split <;> decide
  | _ =>
    rw [Instruction.name]
    decide

theorem startsPlain_command {name : String} (h : StartsPlain name) (operands : List String) :
    StartsPlain (command name operands) := by
  rw [command, String.append_assoc]
  exact h.append _

/-- An instruction's text begins with its name, which has no dot. -/
theorem startsPlain_instruction (symbols : SymbolTable) (address : Option Word) (i : Instruction) :
    StartsPlain (instruction symbols address i) := by
  have hn := startsPlain_name i
  cases i with
  | br n z p offset => exact startsPlain_command (hn.append _) _
  | trap vector =>
    have hnames : ∀ r ∈ routines, StartsPlain r.1 := by decide
    rw [instruction, trap]
    split
    · rename_i name v hf
      exact hnames _ (List.mem_of_find?_eq_some hf)
    · exact StartsPlain.append (by decide) _
  | jmp base =>
    rw [instruction]
    split
    · exact hn
    · exact startsPlain_command hn _
  | rti | reserved => exact hn
  | _ => exact startsPlain_command hn _

theorem word_eq_data_iff {symbols : SymbolTable} {address : Option Word} {w : Word} :
    (∃ note, OneLine note ∧ word symbols address w = data w note) ↔ ¬IsWritten w := by
  constructor
  · rintro ⟨note, -, h⟩ hw
    have hstart := startsPlain_instruction symbols address (decode w)
    rw [← word_of_isWritten hw, h] at hstart
    have hdot : (data w note).toList.head? = some '.' := by
      simp [data]
    rw [StartsPlain, hdot] at hstart
    cases hstart
  · exact word_of_not_isWritten

/-- The numbers that lines of instructions are encoded as are the well-formed words other than
branches that are never taken. All other words, and no more, are shown as data, whatever the
address and the symbols, and the data is read as a `.FILL` with the word. -/
theorem isInstructionWord_iff_shown :
    (∀ n : Int, IsInstructionWord n ↔
      (0 ≤ n ∧ n ≤ 0xFFFF) ∧ (Word.ofInt n).WellFormed ∧
        ∀ offset, decode (Word.ofInt n) ≠ .br false false false offset) ∧
    ∀ (w : Word) (symbols : SymbolTable) (address : Option Word),
      ((∃ note, OneLine note ∧ word symbols address w = data w note) ↔
        ¬IsInstructionWord w.toNat) ∧
      ∀ note, OneLine note →
        Shows (data w note) [".FILL", "x" ++ Numeral.hex w.toNat] ∧
        ∀ table a, (Command.mk ".FILL" ["x" ++ Numeral.hex w.toNat]).words table a = .ok [w] := by
  constructor
  · intro n
    rw [isInstructionWord_iff, IsWritten, neverTaken_eq_false]
  · intro w symbols address
    have hlt := w.isLt
    refine ⟨?_, fun note hnote => ⟨shows_data w hnote, words_fill w⟩⟩
    rw [word_eq_data_iff, isInstructionWord_iff, Word.ofInt_toNat]
    constructor
    · intro h hn
      exact h hn.2
    · intro h hw
      exact h ⟨by omega, hw⟩

end LC3.Listing
