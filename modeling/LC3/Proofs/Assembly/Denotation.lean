import LC3.Assembly.Encoding
import LC3.Proofs.Computation
import LC3.Proofs.Word

/-!
# What instruction lines denote

`Denotes` says which instruction a mnemonic and its operands stand for, format by format, without
reference to the encoder: registers and literals are read off the operands, and a label's offset is
its exact distance from the address behind the instruction. `decode_instructionWord` shows that the
word of an accepted line decodes to that very instruction.
-/

namespace LC3.Assembly

/-! ## Operands -/

/-- `n` is what an operand says about an offset at `pc`: the value of a literal, or the distance to
a label, which is never wrapped. -/
inductive OffsetOf (pc : Int) (symbols : SymbolTable) (operand : String) (n : Int) : Prop where
  | literal (h : Literal.value? operand = .ok (some n))
  | label (h : Literal.value? operand = .ok none) (hs : symbols[operand]? = some (pc + n))

/-- The last operand of `ADD` and `AND`. -/
inductive SourceOf (operand : String) : Source → Prop where
  | immediate {v : BitVec 5} (h : Literal.value? operand = .ok (some v.toInt)) :
      SourceOf operand (.immediate v)
  | register {r : Reg} (h : Literal.value? operand = .ok none) (hr : register? operand = some r) :
      SourceOf operand (.register r)

/-- The letters of a branch's conditions. -/
def conditionLetters (n z p : Bool) : String :=
  (if n then "N" else "") ++ (if z then "Z" else "") ++ (if p then "P" else "")

/-- The instructions with a register and an offset from the program counter. -/
def pcRelatives : List (String × (Reg → BitVec 9 → Instruction)) :=
  [("LD", .ld), ("LDI", .ldi), ("LEA", .lea), ("ST", .st), ("STI", .sti)]

/-- The instructions with a register and an offset from a base register. -/
def baseRelatives : List (String × (Reg → Reg → BitVec 6 → Instruction)) :=
  [("LDR", .ldr), ("STR", .str)]

/-- The names of the service routines, by their vectors from `x20` on. -/
def serviceNames : List String :=
  ["GETC", "OUT", "PUTS", "IN", "PUTSP", "HALT"]

/-! ## Lines -/

/-- The instruction that an upper-case mnemonic and its operands stand for at `pc`. -/
inductive Denotes (pc : Int) (symbols : SymbolTable) :
    String → List String → Instruction → Prop where
  | add {a b c : String} {dr sr : Reg} {s : Source} (ha : register? a = some dr)
      (hb : register? b = some sr) (hc : SourceOf c s) :
      Denotes pc symbols "ADD" [a, b, c] (.add dr sr s)
  | and {a b c : String} {dr sr : Reg} {s : Source} (ha : register? a = some dr)
      (hb : register? b = some sr) (hc : SourceOf c s) :
      Denotes pc symbols "AND" [a, b, c] (.and dr sr s)
  | not {a b : String} {dr sr : Reg} (ha : register? a = some dr) (hb : register? b = some sr) :
      Denotes pc symbols "NOT" [a, b] (.not dr sr)
  | branch {a : String} {n z p : Bool} {offset : BitVec 9} (hany : n ∨ z ∨ p)
      (ha : OffsetOf pc symbols a offset.toInt) :
      Denotes pc symbols ("BR" ++ conditionLetters n z p) [a] (.br n z p offset)
  | branchAlways {a : String} {offset : BitVec 9} (ha : OffsetOf pc symbols a offset.toInt) :
      Denotes pc symbols "BR" [a] (.br true true true offset)
  | jmp {a : String} {base : Reg} (ha : register? a = some base) :
      Denotes pc symbols "JMP" [a] (.jmp base)
  | ret : Denotes pc symbols "RET" [] (.jmp 7)
  | jsr {a : String} {offset : BitVec 11} (ha : OffsetOf pc symbols a offset.toInt) :
      Denotes pc symbols "JSR" [a] (.jsr offset)
  | jsrr {a : String} {base : Reg} (ha : register? a = some base) :
      Denotes pc symbols "JSRR" [a] (.jsrr base)
  | pcRelative {name a b : String} {make : Reg → BitVec 9 → Instruction} {r : Reg}
      {offset : BitVec 9} (hm : (name, make) ∈ pcRelatives) (ha : register? a = some r)
      (hb : OffsetOf pc symbols b offset.toInt) :
      Denotes pc symbols name [a, b] (make r offset)
  | baseRelative {name a b c : String} {make : Reg → Reg → BitVec 6 → Instruction} {r base : Reg}
      {offset : BitVec 6} (hm : (name, make) ∈ baseRelatives) (ha : register? a = some r)
      (hb : register? b = some base) (hc : OffsetOf pc symbols c offset.toInt) :
      Denotes pc symbols name [a, b, c] (make r base offset)
  | rti : Denotes pc symbols "RTI" [] .rti
  | trap {a : String} {vector : BitVec 8} (ha : Literal.value? a = .ok (some vector.toNat)) :
      Denotes pc symbols "TRAP" [a] (.trap vector)
  | service {name : String} {k : Nat} (hk : serviceNames[k]? = some name) :
      Denotes pc symbols name [] (.trap (BitVec.ofNat 8 (0x20 + k)))

/-- The name under which the word of a mnemonic is decoded: branches share one, service routines
are traps, and `JMP R7` is `RET`. -/
def decodedName (mnemonic : String) (operands : List String) : String :=
  if mnemonic ∈ ["BR", "BRN", "BRZ", "BRP", "BRNZ", "BRNP", "BRZP", "BRNZP"] then "BR"
  else if mnemonic ∈ serviceNames then "TRAP"
  else if mnemonic = "JMP" ∧ operands.map register? = [some 7] then "RET"
  else mnemonic

theorem Denotes.name_eq {pc : Int} {symbols : SymbolTable} {mnemonic : String}
    {operands : List String} {i : Instruction} (h : Denotes pc symbols mnemonic operands i) :
    i.name = decodedName mnemonic operands := by
  cases h with
  | @branch a n z p offset hany ha => cases n <;> cases z <;> cases p <;> rfl
  | @jmp a base ha =>
    by_cases hb : base = 7#3 <;>
      simp [Instruction.name, decodedName, serviceNames, ha, linkRegister, hb]
  | pcRelative hm ha hb =>
    simp only [pcRelatives, List.mem_cons, Prod.mk.injEq, List.not_mem_nil, or_false] at hm
    rcases hm with ⟨rfl, rfl⟩ | ⟨rfl, rfl⟩ | ⟨rfl, rfl⟩ | ⟨rfl, rfl⟩ | ⟨rfl, rfl⟩ <;> rfl
  | baseRelative hm ha hb hc =>
    simp only [baseRelatives, List.mem_cons, Prod.mk.injEq, List.not_mem_nil, or_false] at hm
    rcases hm with ⟨rfl, rfl⟩ | ⟨rfl, rfl⟩ <;> rfl
  | service hk =>
    have hm : mnemonic ∈ serviceNames := List.mem_of_getElem? hk
    simp only [serviceNames, List.mem_cons, List.not_mem_nil, or_false] at hm
    rcases hm with rfl | rfl | rfl | rfl | rfl | rfl <;> rfl
  | _ => rfl

/-! ## Accepted operands -/

theorem register_eq_ok {operand : String} {r : Reg} :
    register operand = .ok r ↔ register? operand = some r := by
  unfold register
  cases register? operand <;> simp

theorem toInt_ofInt_field {bits : Nat} {n : Int} (hb : 0 < bits) (hmin : fieldMin bits ≤ n)
    (hmax : n ≤ fieldMax bits) : (BitVec.ofInt bits n).toInt = n := by
  rw [BitVec.toInt_ofInt, Word.bmod_eq_iff_shownIn hb]
  exact ⟨Word.inField_iff.mpr ⟨hmin, hmax⟩, .rfl⟩

theorem offset_eq_ok {pc n : Int} {operand : String} {symbols : SymbolTable} {bits : Nat} :
    offset pc operand symbols bits = .ok n ↔
      (fieldMin bits ≤ n ∧ n ≤ fieldMax bits) ∧ OffsetOf pc symbols operand n := by
  unfold offset
  constructor
  · intro h
    split at h
    · cases h
    · rename_i m hv
      simp only at h
      split at h
      · cases h
        exact ⟨by assumption, .literal hv⟩
      · cases h
    · rename_i hv
      split at h
      · rename_i address hs
        simp only at h
        split at h
        · -- The distance was checked before it is cut to the field, so it is exact.
          cases h
          exact ⟨by assumption, .label hv (by rw [hs]; congr 1; omega)⟩
        · cases h
      · cases h
  · rintro ⟨hr, ⟨hv⟩ | ⟨hv, hs⟩⟩
    · simp only [hv]
      exact if_pos hr
    · have hn : pc + n - pc = n := by omega
      simp only [hv, hs, hn]
      exact if_pos hr

theorem field_bounds {bits : Nat} (v : BitVec bits) :
    fieldMin bits ≤ v.toInt ∧ v.toInt ≤ fieldMax bits :=
  Word.inField_iff.mp (Word.inField_toInt v)

theorem offsetField_eq_ok {s : Site} {operand : String} {bits : Nat} {v : BitVec bits}
    (hb : 0 < bits) :
    s.offsetField operand bits = .ok v ↔ OffsetOf s.pc s.symbols operand v.toInt := by
  unfold Site.offsetField
  constructor
  · intro h
    split at h
    · rename_i n hn
      cases h
      obtain ⟨⟨hmin, hmax⟩, ho⟩ := offset_eq_ok.mp hn
      rwa [toInt_ofInt_field hb hmin hmax]
    · cases h
  · intro h
    rw [offset_eq_ok.mpr ⟨field_bounds v, h⟩]
    exact congrArg Except.ok BitVec.ofInt_toInt

theorem source_eq_ok {operand : String} {s : Source} :
    source operand = .ok s ↔ SourceOf operand s := by
  simp only [source, bind_eq_ok, orFault_eq_ok]
  constructor
  · rintro ⟨v, hv, h⟩
    cases v with
    | none =>
      simp only [bind_eq_ok, pure_eq_ok, register_eq_ok] at h
      obtain ⟨r, hr, rfl⟩ := h
      exact .register hv hr
    | some n =>
      simp only at h
      split at h
      · rename_i hn
        cases h
        exact .immediate (by rw [toInt_ofInt_field (by decide) hn.1 hn.2, hv])
      · exact absurd h throw_ne_ok
  · rintro (⟨hv⟩ | ⟨hv, hr⟩)
    · rename_i v
      refine ⟨_, hv, ?_⟩
      simp only
      rw [if_pos (field_bounds v), BitVec.ofInt_toInt]
      rfl
    · exact ⟨_, hv, bind_eq_ok.mpr ⟨_, register_eq_ok.mpr hr, rfl⟩⟩

theorem trapVector_eq_ok {operand : String} {vector : BitVec 8} :
    trapVector operand = .ok vector ↔
      Literal.value? operand = .ok (some (vector.toNat : Int)) := by
  simp only [trapVector, bind_eq_ok, orFault_eq_ok]
  constructor
  · rintro ⟨v, hv, h⟩
    cases v with
    | none => exact absurd h throw_ne_ok
    | some n =>
      simp only at h
      split at h
      · rename_i hn
        cases h
        rw [hv, BitVec.toNat_ofInt]
        congr 2
        omega
      · exact absurd h throw_ne_ok
  · intro hv
    refine ⟨_, hv, ?_⟩
    have hlt := vector.isLt
    simp only
    rw [if_pos (by omega), BitVec.ofInt_natCast, BitVec.ofNat_toNat, BitVec.setWidth_eq]
    rfl

/-! ## Accepted lines -/

theorem mem_table {name : String} {m : Mnemonic} (h : Mnemonic.ofName? name = some m) :
    (name, m) ∈ Mnemonic.table := by
  obtain ⟨before, after, ht, -⟩ := List.lookup_eq_some_iff.mp h
  rw [ht]
  simp

theorem denotes_branch {pc : Int} {symbols : SymbolTable} {name a : String} {n z p : Bool}
    {offset : BitVec 9} (hname : name = "BR" ++ conditionLetters n z p) (hany : n ∨ z ∨ p)
    (ha : OffsetOf pc symbols a offset.toInt) :
    Denotes pc symbols name [a] (.br n z p offset) :=
  hname ▸ .branch hany ha

theorem denotes_of_instruction {name : String} {m : Mnemonic} {operands : List String} {s : Site}
    {i : Instruction} (hm : Mnemonic.ofName? name = some m)
    (h : m.instruction operands s = .ok i) : Denotes s.pc s.symbols name operands i := by
  have hname := mem_table hm
  unfold Mnemonic.instruction at h
  -- One case for each mnemonic with its operands. What the table says of the mnemonic gives the
  -- names it can have: eight for the branches, six for the service routines, one for the others.
  split at h
  all_goals
    simp only [Mnemonic.table, branches, routines, List.map_cons, List.map_nil, List.cons_append,
      List.nil_append, List.mem_cons, Prod.mk.injEq, reduceCtorEq, and_false, and_true, or_false,
      false_or, List.not_mem_nil] at hname
    simp only [bind_eq_ok, pure_eq_ok, register_eq_ok, Except.ok.injEq, reduceCtorEq] at h
  case h_1 =>
    obtain ⟨dr, hd, sr, hs, c, hc, rfl⟩ := h
    exact hname ▸ .add hd hs (source_eq_ok.mp hc)
  case h_2 =>
    obtain ⟨dr, hd, sr, hs, c, hc, rfl⟩ := h
    exact hname ▸ .and hd hs (source_eq_ok.mp hc)
  case h_3 =>
    obtain ⟨dr, hd, sr, hs, rfl⟩ := h
    exact hname ▸ .not hd hs
  case h_4 =>
    obtain ⟨offset, ho, rfl⟩ := h
    have ha := (offsetField_eq_ok (by decide)).mp ho
    rcases hname with ⟨rfl, hb⟩ | hname
    · cases hb
      exact .branchAlways ha
    · rcases hname with ⟨rfl, hb⟩ | ⟨rfl, hb⟩ | ⟨rfl, hb⟩ | ⟨rfl, hb⟩ | ⟨rfl, hb⟩ | ⟨rfl, hb⟩ |
        ⟨rfl, hb⟩ <;> cases hb <;>
          exact denotes_branch (by decide) (by decide) ha
  case h_5 =>
    obtain ⟨base, hb, rfl⟩ := h
    exact hname ▸ .jmp hb
  case h_6 => exact hname ▸ h ▸ .ret
  case h_7 =>
    obtain ⟨offset, ho, rfl⟩ := h
    exact hname ▸ .jsr ((offsetField_eq_ok (by decide)).mp ho)
  case h_8 =>
    obtain ⟨base, hb, rfl⟩ := h
    exact hname ▸ .jsrr hb
  case h_9 | h_10 | h_11 | h_12 | h_13 =>
    obtain ⟨r, hr, offset, ho, rfl⟩ := h
    exact .pcRelative (by simp [hname, pcRelatives]) hr ((offsetField_eq_ok (by decide)).mp ho)
  case h_14 | h_15 =>
    obtain ⟨r, hr, base, hb, offset, ho, rfl⟩ := h
    exact .baseRelative (by simp [hname, baseRelatives]) hr hb
      ((offsetField_eq_ok (by decide)).mp ho)
  case h_16 => exact hname ▸ h ▸ .rti
  case h_17 =>
    obtain ⟨vector, hv, rfl⟩ := h
    exact hname ▸ .trap (trapVector_eq_ok.mp hv)
  case h_18 =>
    subst h
    rcases hname with ⟨rfl, hv⟩ | ⟨rfl, hv⟩ | ⟨rfl, hv⟩ | ⟨rfl, hv⟩ | ⟨rfl, hv⟩ | ⟨rfl, hv⟩ <;>
      cases hv
    · exact .service (k := 0) rfl
    · exact .service (k := 1) rfl
    · exact .service (k := 2) rfl
    · exact .service (k := 3) rfl
    · exact .service (k := 4) rfl
    · exact .service (k := 5) rfl

theorem instruction_of_denotes {pc : Int} {symbols : SymbolTable} {name : String}
    {operands : List String} {i : Instruction} (h : Denotes pc symbols name operands i)
    (mnemonic : String) :
    ∃ m, Mnemonic.ofName? name = some m ∧
      m.instruction operands ⟨mnemonic, pc, symbols⟩ = .ok i := by
  have hbranch : ∀ n z p : Bool, (n ∨ z ∨ p) →
      Mnemonic.ofName? ("BR" ++ conditionLetters n z p) = some (.br n z p) := by decide +kernel
  cases h with
  | add ha hb hc =>
    refine ⟨.add, by decide, ?_⟩
    simp only [Mnemonic.instruction, bind_eq_ok, register_eq_ok, source_eq_ok]
    exact ⟨_, ha, _, hb, _, hc, rfl⟩
  | and ha hb hc =>
    refine ⟨.and, by decide, ?_⟩
    simp only [Mnemonic.instruction, bind_eq_ok, register_eq_ok, source_eq_ok]
    exact ⟨_, ha, _, hb, _, hc, rfl⟩
  | not ha hb =>
    refine ⟨.not, by decide, ?_⟩
    simp only [Mnemonic.instruction, bind_eq_ok, register_eq_ok]
    exact ⟨_, ha, _, hb, rfl⟩
  | branch hany ha =>
    refine ⟨_, hbranch _ _ _ hany, ?_⟩
    simp only [Mnemonic.instruction, bind_eq_ok]
    exact ⟨_, (offsetField_eq_ok (by decide)).mpr ha, rfl⟩
  | branchAlways ha =>
    refine ⟨.br true true true, by decide, ?_⟩
    simp only [Mnemonic.instruction, bind_eq_ok]
    exact ⟨_, (offsetField_eq_ok (by decide)).mpr ha, rfl⟩
  | jmp ha =>
    refine ⟨.jmp, by decide, ?_⟩
    simp only [Mnemonic.instruction, bind_eq_ok, register_eq_ok]
    exact ⟨_, ha, rfl⟩
  | ret => exact ⟨.ret, by decide, rfl⟩
  | jsr ha =>
    refine ⟨.jsr, by decide, ?_⟩
    simp only [Mnemonic.instruction, bind_eq_ok]
    exact ⟨_, (offsetField_eq_ok (by decide)).mpr ha, rfl⟩
  | jsrr ha =>
    refine ⟨.jsrr, by decide, ?_⟩
    simp only [Mnemonic.instruction, bind_eq_ok, register_eq_ok]
    exact ⟨_, ha, rfl⟩
  | @pcRelative name a b make r offset hm ha hb =>
    have hi : (do return make (← register a) (← Site.offsetField ⟨mnemonic, pc, symbols⟩ b 9)) =
        .ok (make r offset) := by
      simp only [bind_eq_ok, register_eq_ok]
      exact ⟨_, ha, _, (offsetField_eq_ok (by decide)).mpr hb, rfl⟩
    simp only [pcRelatives, List.mem_cons, Prod.mk.injEq, List.not_mem_nil, or_false] at hm
    rcases hm with ⟨rfl, rfl⟩ | ⟨rfl, rfl⟩ | ⟨rfl, rfl⟩ | ⟨rfl, rfl⟩ | ⟨rfl, rfl⟩
    · exact ⟨.ld, by decide, hi⟩
    · exact ⟨.ldi, by decide, hi⟩
    · exact ⟨.lea, by decide, hi⟩
    · exact ⟨.st, by decide, hi⟩
    · exact ⟨.sti, by decide, hi⟩
  | @baseRelative name a b c make r base offset hm ha hb hc =>
    have hi : (do
        return make (← register a) (← register b)
          (← Site.offsetField ⟨mnemonic, pc, symbols⟩ c 6)) = .ok (make r base offset) := by
      simp only [bind_eq_ok, register_eq_ok]
      exact ⟨_, ha, _, hb, _, (offsetField_eq_ok (by decide)).mpr hc, rfl⟩
    simp only [baseRelatives, List.mem_cons, Prod.mk.injEq, List.not_mem_nil, or_false] at hm
    rcases hm with ⟨rfl, rfl⟩ | ⟨rfl, rfl⟩
    · exact ⟨.ldr, by decide, hi⟩
    · exact ⟨.str, by decide, hi⟩
  | rti => exact ⟨.rti, by decide, rfl⟩
  | trap ha =>
    refine ⟨.trap, by decide, ?_⟩
    simp only [Mnemonic.instruction, bind_eq_ok, trapVector_eq_ok]
    exact ⟨_, ha, rfl⟩
  | @service name k hk =>
    have hk6 : k < 6 := (List.getElem?_eq_some_iff.mp hk).1
    have hname : Mnemonic.ofName? name = some (.routine (BitVec.ofNat 8 (0x20 + k))) := by
      have hall : ∀ k < 6, Mnemonic.ofName? (serviceNames.getD k "") =
          some (.routine (BitVec.ofNat 8 (0x20 + k))) := by decide +kernel
      have := hall k hk6
      rwa [List.getD_eq_getElem?_getD, hk] at this
    exact ⟨_, hname, rfl⟩

/-- The word of an accepted line decodes to the instruction that the line denotes, under the name
of its mnemonic. -/
theorem decode_instructionWord {c : Command} {pc : Int} {symbols : SymbolTable} {w : Word}
    (h : c.instructionWord pc symbols = .ok w) :
    Denotes pc symbols (Text.upper c.name) c.operands (decode w) ∧
      (decode w).name = decodedName (Text.upper c.name) c.operands := by
  simp only [Command.instructionWord, Command.instruction, bind_eq_ok, pure_eq_ok] at h
  obtain ⟨i, hi, rfl⟩ := h
  split at hi
  · cases hi
  · rename_i m hm
    rw [decode_encode]
    have hd := denotes_of_instruction hm hi
    exact ⟨hd, hd.name_eq⟩

/-- A label's distance at the low end of its field, from a base register. -/
theorem decode_instructionWord_label :
    Command.instructionWord ⟨"ldr", ["R1", "r7", "A"]⟩ 30 (SymbolTable.ofList [("A", -2)]) =
        .ok 0x63E0 ∧
      Denotes 30 (SymbolTable.ofList [("A", -2)]) (Text.upper "ldr") ["R1", "r7", "A"]
        (decode 0x63E0) ∧
      (decode 0x63E0).name = decodedName (Text.upper "ldr") ["R1", "r7", "A"] :=
  ⟨by rfl, decode_instructionWord (c := ⟨"ldr", ["R1", "r7", "A"]⟩) (by rfl)⟩

end LC3.Assembly
