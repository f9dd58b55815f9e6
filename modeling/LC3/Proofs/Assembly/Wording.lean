import LC3.Proofs.Assembly.Grammar
import LC3.Proofs.Assembly.Overlong
import Mathlib.Data.List.Basic
import Mathlib.Tactic.IntervalCases

/-!
# Diagnostics that cannot be worded

A diagnostic shows numbers in decimal, and those of the source may be too long to be read or
written. For every operand and every command it is shown where that happens: laying out comes to it
at the count of a `.BLKW` (`faults_reservation`), encoding at the value of a `.FILL` or the last
operand of an instruction (`faults_words`). All other numbers that diagnostics show are addresses
and distances in memory.
-/

namespace LC3.Assembly

variable {f : Fault}

/-! ## Messages -/

theorem exists_decimal {n : Int} (h : n.natAbs < 100000) : ∃ s, Numeral.decimal n = .ok s :=
  ⟨toString n, Numeral.decimal_eq_toString (Numeral.lt_maxDigits h)⟩

theorem Cause.message_decimal {cause : Cause} {n : Int} {before : String}
    (hm : cause.message = do return before ++ (← Numeral.decimal n)) :
    cause.message = .error f ↔ 10 ^ maxDigits ≤ n.natAbs ∧ f = .integerTooLong := by
  rw [hm, return_eq_error, Numeral.decimal_eq_error]

theorem natAbs_field {bits : Nat} (hb : bits ≤ 16) :
    (fieldMin bits).natAbs < 100000 ∧ (fieldMax bits).natAbs < 100000 := by
  interval_cases bits <;> decide

theorem Cause.message_offsetRange {mnemonic : String} {n : Int} {bits : Nat} (hb : bits ≤ 16) :
    (Cause.offset mnemonic (.range n bits)).message = .error f ↔
      10 ^ maxDigits ≤ n.natAbs ∧ f = .integerTooLong := by
  obtain ⟨low, hl⟩ := exists_decimal (natAbs_field hb).1
  obtain ⟨high, hh⟩ := exists_decimal (natAbs_field hb).2
  simp only [message, OffsetFlaw.message, hl, hh, bind_eq_error, pure_ne_error, and_false,
    exists_false, or_false, Numeral.decimal_eq_error, reduceCtorEq]

/-! ## Operands -/

section

variable {α β : Type} {operand : String}

/-- A literal whose number is used: at fault if it cannot be read, or if a diagnostic shows it and
it cannot be written. -/
theorem faults_literal {g : Option Int → Except Cause α} {shown : Int → Prop}
    (hnone : ¬Faults Cause.message (g none) f)
    (hsome : ∀ n, Faults Cause.message (g (some n)) f ↔
      shown n ∧ 10 ^ maxDigits ≤ n.natAbs ∧ f = .integerTooLong) :
    Faults Cause.message (orFault (Literal.value? operand) >>= g) f ↔
      OperandFault operand shown f := by
  rw [faults_bind, faults_orFault, operandFault_iff]
  refine or_congr_right ?_
  simp only [orFault_eq_ok]
  constructor
  · rintro ⟨v, hv, h⟩
    cases v with
    | none => exact absurd h hnone
    | some n => exact ⟨n, hv, (hsome n).mp h⟩
  · rintro ⟨n, hv, h⟩
    exact ⟨some n, hv, (hsome n).mpr h⟩

/-- A number that is shown if it is out of a range, as it is if it cannot be written. -/
theorem faults_range {p : Prop} [Decidable p] {a : α} {cause : Cause} {n : Int}
    (hp : p → n.natAbs < 100000)
    (hm : cause.message = .error f ↔ 10 ^ maxDigits ≤ n.natAbs ∧ f = .integerTooLong) :
    Faults Cause.message (if p then .ok a else .error cause) f ↔
      True ∧ 10 ^ maxDigits ≤ n.natAbs ∧ f = .integerTooLong := by
  rw [true_and]
  split
  · rename_i h
    have hlt := Nat.not_le.mpr (Numeral.lt_maxDigits (hp h))
    simp [not_faults_ok, hlt]
  · rw [faults_error, hm]

theorem not_faults_register : ¬Faults Cause.message (register operand) f := by
  unfold register
  split
  · exact not_faults_ok _
  · exact not_faults_error rfl

theorem faults_register_bind {g : Reg → Except Cause α} :
    Faults Cause.message (register operand >>= g) f ↔
      ∃ r, register? operand = some r ∧ Faults Cause.message (g r) f := by
  rw [faults_bind]
  simp only [not_faults_register, false_or, register_eq_ok]

theorem faults_source :
    Faults Cause.message (source operand) f ↔ OperandFault operand (fun _ => True) f := by
  refine faults_literal ?_ fun n => ?_
  · simp only
    rw [faults_map]
    exact not_faults_register
  · refine faults_range (fun h => ?_) (Cause.message_decimal rfl)
    have hmin : fieldMin 5 = -16 := rfl
    have hmax : fieldMax 5 = 15 := rfl
    omega

theorem faults_trapVector :
    Faults Cause.message (trapVector operand) f ↔ OperandFault operand (fun _ => True) f := by
  refine faults_literal ?_ fun n => ?_
  · exact not_faults_error rfl
  · exact faults_range (fun h => by omega) (Cause.message_decimal rfl)

/-- Labels and the address of an instruction lie in memory, so their distances are small. -/
structure InMemory (symbols : SymbolTable) (pc : Int) : Prop where
  labels : ∀ (name : String) a, symbols[name]? = some a → 0 ≤ a ∧ a < memorySize
  pc : 0 ≤ pc ∧ pc ≤ memorySize + 1

theorem faults_offsetField {s : Site} (hs : InMemory s.symbols s.pc) {bits : Nat} (hb : bits ≤ 16) :
    Faults Cause.message (s.offsetField operand bits) f ↔
      OperandFault operand (fun _ => True) f := by
  have hsmall {n : Int} (h : n.natAbs < 100000) : ¬10 ^ maxDigits ≤ n.natAbs :=
    Nat.not_le.mpr (Numeral.lt_maxDigits h)
  rw [operandFault_iff]
  unfold Site.offsetField offset
  cases hv : Literal.value? operand with
  | error g => simp [faults_error, Cause.message, OffsetFlaw.message, bind, Except.bind]
  | ok v =>
    cases v with
    | some n =>
      by_cases hr : fieldMin bits ≤ n ∧ n ≤ fieldMax bits
      · have hn := hsmall (n := n) (by have := natAbs_field hb; omega)
        simp only [if_pos hr, not_faults_ok]
        simp [hn]
      · simp only [if_neg hr, faults_error, Cause.message_offsetRange hb]
        simp
    | none =>
      cases ha : s.symbols[operand]? with
      | none => simp [faults_error, Cause.message, OffsetFlaw.message, bind, Except.bind, pure,
          Except.pure]
      | some a =>
        have h1 := hs.labels operand a ha
        have h2 := hs.pc
        have hn := hsmall (n := a - s.pc) (by unfold memorySize at h1 h2; omega)
        by_cases hr : fieldMin bits ≤ a - s.pc ∧ a - s.pc ≤ fieldMax bits
        · simp only [if_pos hr, not_faults_ok]
          simp
        · simp only [if_neg hr, faults_error, Cause.message_offsetRange hb]
          simp [hn]

/-! ## Instructions -/

/-- The last operand may be a number. -/
def Mnemonic.takesNumber : Mnemonic → Bool
  | .not | .jmp | .ret | .jsrr | .rti | .routine _ => false
  | _ => true

/-- Registers, and a last operand with the property. -/
def RegistersThen (operands : List String) (P : String → Prop) : Prop :=
  ∃ (registers : List String) (last : String), operands = registers ++ [last] ∧
    (∀ r ∈ registers, ∃ reg, register? r = some reg) ∧ P last

theorem registersThen_append {registers : List String} {last : String} {P : String → Prop} :
    RegistersThen (registers ++ [last]) P ↔
      (∀ r ∈ registers, ∃ reg, register? r = some reg) ∧ P last := by
  constructor
  · rintro ⟨registers', last', h, hr, hl⟩
    obtain ⟨rfl, hlast⟩ := List.append_inj' h rfl
    cases hlast
    exact ⟨hr, hl⟩
  · rintro ⟨hr, hl⟩
    exact ⟨registers, last, rfl, hr, hl⟩

theorem faults_instruction {m : Mnemonic} {operands : List String} {s : Site}
    (hs : InMemory s.symbols s.pc) :
    Faults Cause.message (m.instruction operands s) f ↔
      m.takesNumber = true ∧ operands.length = m.arity ∧
        RegistersThen operands fun last => OperandFault last (fun _ => True) f := by
  have h1 (a : String) (P : String → Prop) : RegistersThen [a] P ↔ P a := by
    simpa using @registersThen_append [] a P
  have h2 (a b : String) (P : String → Prop) :
      RegistersThen [a, b] P ↔ (∃ r, register? a = some r) ∧ P b := by
    simpa using @registersThen_append [a] b P
  have h3 (a b c : String) (P : String → Prop) :
      RegistersThen [a, b, c] P ↔
        (∃ r, register? a = some r) ∧ (∃ r, register? b = some r) ∧ P c := by
    simpa [and_assoc] using @registersThen_append [a, b] c P
  unfold Mnemonic.instruction
  split
  case h_19 hadd hand hnot hbr hjmp hret hjsr hjsrr hld hldi hlea hst hsti hldr hstr hrti htrap
      hroutine =>
    -- No mnemonic with all of its operands is left over.
    rw [faults_error]
    constructor
    · exact nofun
    · rintro ⟨hk, hl, -⟩
      exfalso
      cases m with
      | not | jmp | ret | jsrr | rti | routine => cases hk
      | br n z p =>
        obtain ⟨a, rfl⟩ := List.length_eq_one_iff.mp hl
        exact hbr n z p a rfl rfl
      | jsr | trap =>
        obtain ⟨a, rfl⟩ := List.length_eq_one_iff.mp hl
        simp at hjsr htrap
      | ld | ldi | lea | st | sti =>
        obtain ⟨a, b, rfl⟩ := List.length_eq_two.mp hl
        simp at hld hldi hlea hst hsti
      | add | and | ldr | str =>
        obtain ⟨a, b, c, rfl⟩ := List.length_eq_three.mp hl
        simp at hadd hand hldr hstr
  all_goals
    simp only [faults_register_bind, faults_map, faults_source, faults_trapVector, h1, h2, h3,
      faults_offsetField hs (show 9 ≤ 16 by decide), faults_offsetField hs (show 11 ≤ 16 by decide),
      faults_offsetField hs (show 6 ≤ 16 by decide), not_faults_ok, not_faults_register,
      exists_and_right, exists_false, Mnemonic.takesNumber, Mnemonic.arity, List.length_cons,
      List.length_nil, Bool.false_eq_true, true_and, false_and, and_false]

/-! ## Directives -/

theorem not_faults_stringValue : ¬Faults Cause.message (stringValue operand) f := by
  unfold stringValue
  split
  · exact not_faults_ok _
  · exact not_faults_error rfl

theorem faults_fillWord {symbols : SymbolTable} :
    Faults Cause.message (fillWord operand symbols) f ↔
      OperandFault operand (fun _ => False) f := by
  refine faults_literal ?_ fun n => ?_
  · simp only
    split
    · exact not_faults_ok _
    · exact not_faults_error rfl
  · simp only [false_and, iff_false]
    exact not_faults_ok _

theorem faults_block :
    Faults Cause.message (do (Reservation.block (← blockCount operand)).size) f ↔
      OperandFault operand (· < 0) f := by
  rw [blockCount, bind_assoc]
  refine faults_literal ?_ fun n => ?_
  · exact not_faults_error rfl
  · change Faults Cause.message (if n < 0 then _ else _) f ↔ _
    split
    · rename_i h
      rw [faults_error, Cause.message_decimal rfl]
      simp [h]
    · rename_i h
      simp [h, not_faults_ok]

end

/-- The block of the command cannot be laid out for its count. -/
def Command.LayoutFault (c : Command) (f : Fault) : Prop :=
  Text.upper c.name = ".BLKW" ∧ ∃ operand, c.operands = [operand] ∧
    OperandFault operand (· < 0) f

/-- The command cannot be encoded for its number: the value of a `.FILL`, or the last operand of an
instruction that has all its operands, with registers in front. -/
inductive Command.EncodingFault (c : Command) (f : Fault) : Prop where
  | fill {operand : String} (hn : Text.upper c.name = ".FILL") (ho : c.operands = [operand])
      (h : OperandFault operand (fun _ => False) f)
  | instruction {m : Mnemonic} (hm : Mnemonic.ofName? (Text.upper c.name) = some m)
      (hk : m.takesNumber = true) (hl : c.operands.length = m.arity)
      (h : RegistersThen c.operands fun last => OperandFault last (fun _ => True) f)

variable {c : Command}

/-- What is computed from the operand of a directive, if a fault can only come from one directive:
an unknown directive, or one with more operands or none, is reported. -/
theorem faults_directive {α : Type} {d : Directive} {P : String → Prop} {x : Except Cause α}
    (hnone : Directive.ofName? (Text.upper c.name) = none → ¬Faults Cause.message x f)
    (hcount : ∀ e, Directive.ofName? (Text.upper c.name) = some e →
      (∀ operand, c.operands ≠ [operand]) → ¬Faults Cause.message x f)
    (hone : ∀ e operand, Directive.ofName? (Text.upper c.name) = some e → c.operands = [operand] →
      (Faults Cause.message x f ↔ e = d ∧ P operand)) :
    Faults Cause.message x f ↔
      Text.upper c.name = d.name ∧ ∃ operand, c.operands = [operand] ∧ P operand := by
  constructor
  · intro h
    cases hd : Directive.ofName? (Text.upper c.name) with
    | none => exact absurd h (hnone hd)
    | some e =>
      by_cases ho : ∃ operand, c.operands = [operand]
      · obtain ⟨operand, ho⟩ := ho
        obtain ⟨rfl, hP⟩ := (hone e operand hd ho).mp h
        exact ⟨(Directive.name_of_ofName? hd).symm, operand, ho, hP⟩
      · exact absurd h (hcount e hd (not_exists.mp ho))
  · rintro ⟨hn, operand, ho, hP⟩
    exact (hone d operand (ofName?_of_directive hn) ho).mpr ⟨rfl, hP⟩

theorem faults_reservation :
    Faults Cause.message (do (← c.reservation).size) f ↔ c.LayoutFault f := by
  by_cases hd : c.isDirective = true
  · unfold Command.reservation
    rw [if_pos hd]
    refine faults_directive (d := .blkw) (fun hn => ?_) (fun e hn hne => ?_) fun e operand hn ho => ?_
    · rw [hn]
      exact not_faults_error rfl
    · rw [hn]
      dsimp only
      split
      · rename_i operand ho
        exact absurd ho (hne operand)
      · exact not_faults_error rfl
    · rw [hn, ho]
      dsimp only
      cases e with
      | fill => exact iff_of_false (not_faults_ok (1 : Nat)) (by rintro ⟨⟨⟩, -⟩)
      | blkw =>
        rw [Directive.reservation, bind_assoc]
        simp only [pure_bind, faults_block, true_and]
      | stringz =>
        rw [Directive.reservation, bind_assoc]
        simp only [pure_bind, faults_bind, not_faults_stringValue, false_or, reduceCtorEq,
          false_and, iff_false]
        rintro ⟨s, -, h⟩
        exact absurd h (not_faults_ok (s.length + 1))
  · unfold Command.reservation
    rw [if_neg hd]
    refine iff_of_false (not_faults_ok (1 : Nat)) fun h => hd ?_
    exact isDirective_of_directive (d := .blkw) h.1

theorem encodingFault_of_isDirective (hd : c.isDirective = true) :
    c.EncodingFault f ↔ Text.upper c.name = ".FILL" ∧
      ∃ operand, c.operands = [operand] ∧ OperandFault operand (fun _ => False) f := by
  constructor
  · rintro (⟨hn, ho, h⟩ | ⟨hm, -, -, -⟩)
    · exact ⟨hn, _, ho, h⟩
    · rw [isDirective_of_ofName? hm] at hd
      cases hd
  · rintro ⟨hn, operand, ho, h⟩
    exact .fill hn ho h

/-- Once the count of a block is known to be in order, encoding it reads it again. -/
theorem faults_directiveWords {symbols : SymbolTable} {n : Nat}
    (hn : (do (← c.reservation).size) = .ok n) (hd : c.isDirective = true) :
    Faults Cause.message (c.directiveWords symbols) f ↔ c.EncodingFault f := by
  have hlayout : ¬c.LayoutFault f := by
    rw [← faults_reservation, hn]
    exact not_faults_ok n
  rw [encodingFault_of_isDirective hd]
  unfold Command.directiveWords
  refine faults_directive (d := .fill) (fun hn => ?_) (fun e hn hne => ?_) fun e operand hn ho => ?_
  · rw [hn]
    exact not_faults_error rfl
  · rw [hn]
    dsimp only
    split
    · rename_i operand ho
      exact absurd ho (hne operand)
    · exact not_faults_error rfl
  · rw [hn, ho]
    dsimp only
    cases e with
    | fill =>
      rw [Directive.words, faults_map, faults_fillWord, eq_self, true_and]
    | blkw =>
      have hwords : Directive.words .blkw operand symbols = (do
          let count ← (do (Reservation.block (← blockCount operand)).size)
          return List.replicate count 0) := by
        rw [Directive.words, bind_assoc]
      rw [hwords, faults_map, faults_block]
      refine iff_of_false (fun h => hlayout ?_) (by rintro ⟨⟨⟩, -⟩)
      exact ⟨(Directive.name_of_ofName? hn).symm, operand, ho, h⟩
    | stringz =>
      rw [Directive.words, faults_map]
      exact iff_of_false not_faults_stringValue (by rintro ⟨⟨⟩, -⟩)

theorem faults_instructionWord {symbols : SymbolTable} {pc : Int} (hd : c.isDirective ≠ true)
    (hs : InMemory symbols pc) :
    Faults Cause.message (c.instructionWord pc symbols) f ↔ c.EncodingFault f := by
  have hfill : Text.upper c.name ≠ ".FILL" := fun hn => hd (isDirective_of_directive (d := .fill) hn)
  rw [Command.instructionWord, faults_map]
  unfold Command.instruction
  split
  · rename_i hnone
    refine iff_of_false (not_faults_error rfl) ?_
    rintro (⟨hn, -, -⟩ | ⟨hm, -, -, -⟩)
    · exact hfill hn
    · rw [hnone] at hm
      cases hm
  · rename_i m hm
    rw [faults_instruction hs]
    constructor
    · rintro ⟨hk, hl, h⟩
      exact .instruction hm hk hl h
    · rintro (⟨hn, -, -⟩ | ⟨hm', hk, hl, h⟩)
      · exact absurd hn hfill
      · obtain rfl := Option.some.inj (hm.symm.trans hm')
        exact ⟨hk, hl, h⟩

/-- A command whose memory is known can only be at fault for the value of a `.FILL`, or as an
instruction. -/
theorem faults_words {symbols : SymbolTable} {a : Int} {n : Nat}
    (hn : (do (← c.reservation).size) = .ok n) (hs : InMemory symbols (a + 1)) :
    Faults Cause.message (c.words symbols a) f ↔ c.EncodingFault f := by
  unfold Command.words
  split
  · rename_i hd
    exact faults_directiveWords hn hd
  · rename_i hd
    rw [faults_map, faults_instructionWord hd hs]

end LC3.Assembly
