import LC3.Assembly
import LC3.Proofs.Assembly.Emission
import LC3.Proofs.Assembly.Name

/-!
# The source language

Which token lines are programs, and which program they mean, said without the passes of the
assembler: `Stands` gives the words of a command, `ProgramLines` reads the lines from the origin to
the end, with the labels that they bind, and `Means` is a whole source. Commands, labels and
addresses are checked against one symbol table, whose bindings are exactly those of the labels.
`program_iff` shows that the assembler reads this language.
-/

namespace LC3.Assembly

/-! ## Grammar -/

/-- A token that labels a line: a label name that no command has. -/
def IsLabel (token : String) : Prop :=
  isLabelName token = true ∧ isCommand token = false

instance (token : String) : Decidable (IsLabel token) :=
  inferInstanceAs (Decidable (_ ∧ _))

/-- The value of a `.FILL`: a literal, or the address of a label. -/
inductive FillOf (symbols : SymbolTable) (operand : String) (n : Int) : Prop where
  | literal (h : Literal.value? operand = .ok (some n))
  | label (h : Literal.value? operand = .ok none) (hs : symbols[operand]? = some n)

/-- The words that a command and its operands stand for at an address. -/
inductive Stands (symbols : SymbolTable) (address : Int) :
    String → List String → List Word → Prop where
  | instruction {name : String} {operands : List String} {i : Instruction}
      (h : Denotes (address + 1) symbols (Text.upper name) operands i) :
      Stands symbols address name operands [i.encode]
  | fill {name operand : String} {n : Int} (hn : Text.upper name = ".FILL")
      (h : FillOf symbols operand n) : Stands symbols address name [operand] [Word.ofInt n]
  | block {name operand : String} {count : Nat} (hn : Text.upper name = ".BLKW")
      (h : Literal.value? operand = .ok (some (count : Int))) :
      Stands symbols address name [operand] (List.replicate count 0)
  | string {name operand : String} {s : List Char} (hn : Text.upper name = ".STRINGZ")
      (h : StringLiteral.decode operand.toList = .ok s) :
      Stands symbols address name [operand] (stringWords (String.ofList s))

/-- Lines from an address on to the first end line, with the labels that they bind and their words.
What stands behind the end has no meaning. -/
inductive ProgramLines (symbols : SymbolTable) :
    Int → List (List String) → List (String × Int) → List Word → Prop where
  | stop {a : Int} {stop : String} {ignored : List String} {rest : List (List String)}
      (he : Text.upper stop = ".END") : ProgramLines symbols a ((stop :: ignored) :: rest) [] []
  | labelledStop {a : Int} {label stop : String} {ignored : List String}
      {rest : List (List String)} (hl : IsLabel label) (he : Text.upper stop = ".END") :
      ProgramLines symbols a ((label :: stop :: ignored) :: rest) [(label, a)] []
  | empty {a : Int} {lines : List (List String)} {bs : List (String × Int)} {ws : List Word}
      (h : ProgramLines symbols a lines bs ws) : ProgramLines symbols a ([] :: lines) bs ws
  | command {a : Int} {name : String} {operands : List String} {lines : List (List String)}
      {bs : List (String × Int)} {us ws : List Word} (hc : Stands symbols a name operands us)
      (h : ProgramLines symbols (a + us.length) lines bs ws) :
      ProgramLines symbols a ((name :: operands) :: lines) bs (us ++ ws)
  | label {a : Int} {label : String} {lines : List (List String)} {bs : List (String × Int)}
      {ws : List Word} (hl : IsLabel label) (h : ProgramLines symbols a lines bs ws) :
      ProgramLines symbols a ([label] :: lines) ((label, a) :: bs) ws
  | labelledCommand {a : Int} {label name : String} {operands : List String}
      {lines : List (List String)} {bs : List (String × Int)} {us ws : List Word}
      (hl : IsLabel label) (hc : Stands symbols a name operands us)
      (h : ProgramLines symbols (a + us.length) lines bs ws) :
      ProgramLines symbols a ((label :: name :: operands) :: lines) ((label, a) :: bs) (us ++ ws)

/-- The token lines are the source of a program: empty lines, the origin, and the lines of the
program, all of it in memory and with every label at one address. -/
inductive Means : List (List String) → Program → Prop where
  | intro {blank lines : List (List String)} {directive operand : String} {orig : Int}
      {symbols : SymbolTable} {bs : List (String × Int)} {ws : List Word}
      (hblank : ∀ line ∈ blank, line = []) (hd : Text.upper directive = ".ORIG")
      (ho : Literal.value? operand = .ok (some orig)) (hr : 0 ≤ orig ∧ orig ≤ 0xFFFF)
      (h : ProgramLines symbols orig lines bs ws)
      (hs : ∀ name a, symbols[name]? = some a ↔ (name, a) ∈ bs)
      (hl : ∀ b ∈ bs, b.2 ≤ 0xFFFF) (hw : orig + ws.length ≤ 0x10000) :
      Means (blank ++ [directive, operand] :: lines)
        ⟨orig, ws.map fun w => (w.toNat : Int), symbols⟩

/-- The token lines are the source of some program. -/
def WellFormed (lines : List (List String)) : Prop :=
  ∃ p, Means lines p

/-! ## Commands -/

theorem fillWord_eq_ok {operand : String} {symbols : SymbolTable} {w : Word} :
    fillWord operand symbols = .ok w ↔ ∃ n, FillOf symbols operand n ∧ w = Word.ofInt n := by
  simp only [fillWord, bind_eq_ok, orFault_eq_ok]
  constructor
  · rintro ⟨v, hv, h⟩
    cases v with
    | some n => exact ⟨n, .literal hv, (pure_eq_ok.mp h).symm⟩
    | none =>
      simp only at h
      split at h
      · rename_i a hs
        exact ⟨a, .label hv hs, (pure_eq_ok.mp h).symm⟩
      · exact absurd h throw_ne_ok
  · rintro ⟨n, ⟨hv⟩ | ⟨hv, hs⟩, rfl⟩
    · exact ⟨_, hv, rfl⟩
    · exact ⟨_, hv, by simp only [hs]; rfl⟩

theorem blockCount_eq_ok {operand : String} {n : Int} :
    blockCount operand = .ok n ↔ Literal.value? operand = .ok (some n) := by
  simp only [blockCount, bind_eq_ok, orFault_eq_ok]
  constructor
  · rintro ⟨v, hv, h⟩
    cases v with
    | none => exact absurd h throw_ne_ok
    | some m => rw [hv, pure_eq_ok.mp h]
  · intro hv
    exact ⟨_, hv, rfl⟩

theorem size_block_eq_ok {count : Int} {n : Nat} :
    (Reservation.block count).size = .ok n ↔ count = n := by
  change (if count < 0 then _ else _) = _ ↔ _
  split
  · simp only [reduceCtorEq, false_iff]
    omega
  · simp only [Except.ok.injEq]
    omega

theorem stringValue_eq_ok {token s : String} :
    stringValue token = .ok s ↔
      ∃ cs, StringLiteral.decode token.toList = .ok cs ∧ s = String.ofList cs := by
  unfold stringValue
  cases StringLiteral.decode token.toList <;> simp [eq_comm]

variable {c : Command} {symbols : SymbolTable} {a : Int} {ws : List Word}

theorem stands_of_directiveWords (h : c.directiveWords symbols = .ok ws) :
    Stands symbols a c.name c.operands ws := by
  unfold Command.directiveWords at h
  split at h
  · cases h
  · rename_i d hd
    have hname := (Directive.name_of_ofName? hd).symm
    split at h
    · rename_i operand ho
      rw [ho]
      cases d with
      | fill =>
        simp only [Directive.words, bind_eq_ok, pure_eq_ok, fillWord_eq_ok] at h
        obtain ⟨w, ⟨n, hn, rfl⟩, rfl⟩ := h
        exact .fill hname hn
      | blkw =>
        simp only [Directive.words, bind_eq_ok, pure_eq_ok, blockCount_eq_ok,
          size_block_eq_ok] at h
        obtain ⟨count, hc, n, rfl, rfl⟩ := h
        exact .block hname hc
      | stringz =>
        simp only [Directive.words, bind_eq_ok, pure_eq_ok, stringValue_eq_ok] at h
        obtain ⟨s, ⟨cs, hcs, rfl⟩, rfl⟩ := h
        exact .string hname hcs
    · cases h

/-- A directive of one operand reaches its own branch, since its name begins with a dot. -/
theorem Command.words_directive {d : Directive} {name operand : String}
    (hn : Text.upper name = d.name) :
    (Command.mk name [operand]).words symbols a = d.words operand symbols := by
  unfold words directiveWords
  rw [isDirective_of_directive (c := ⟨name, [operand]⟩) hn, if_pos rfl, ofName?_of_directive hn]

theorem Command.reservation_directive {d : Directive} {name operand : String}
    (hn : Text.upper name = d.name) :
    (Command.mk name [operand]).reservation = d.reservation operand := by
  unfold reservation
  rw [isDirective_of_directive (c := ⟨name, [operand]⟩) hn, if_pos rfl, ofName?_of_directive hn]

/-- The words that a command is encoded as are those that it stands for. -/
theorem Command.words_eq_ok :
    c.words symbols a = .ok ws ↔ Stands symbols a c.name c.operands ws := by
  constructor
  · intro h
    unfold words at h
    split at h
    · exact stands_of_directiveWords h
    · simp only [instructionWord, instruction, bind_eq_ok, pure_eq_ok] at h
      obtain ⟨w, ⟨i, hi, rfl⟩, rfl⟩ := h
      split at hi
      · cases hi
      · rename_i m hm
        exact .instruction (denotes_of_instruction hm hi)
  · obtain ⟨name, operands⟩ := c
    intro h
    cases h with
    | instruction h =>
      obtain ⟨m, hm, hi⟩ := instruction_of_denotes h name
      rw [words, isDirective_of_ofName? (c := ⟨name, operands⟩) hm, if_neg (by decide)]
      simp only [instructionWord, instruction, hm, bind_eq_ok, pure_eq_ok]
      exact ⟨_, ⟨_, hi, rfl⟩, rfl⟩
    | @fill operand n hn h =>
      rw [words_directive (d := .fill) hn]
      simp only [Directive.words, bind_eq_ok, pure_eq_ok, fillWord_eq_ok]
      exact ⟨_, ⟨n, h, rfl⟩, rfl⟩
    | @block operand count hn h =>
      rw [words_directive (d := .blkw) hn]
      simp only [Directive.words, bind_eq_ok, pure_eq_ok, blockCount_eq_ok, size_block_eq_ok]
      exact ⟨_, h, count, rfl, rfl⟩
    | @string operand s hn h =>
      rw [words_directive (d := .stringz) hn]
      simp only [Directive.words, bind_eq_ok, pure_eq_ok, stringValue_eq_ok]
      exact ⟨_, ⟨s, h, rfl⟩, rfl⟩

theorem Stands.isCommand {name : String} {operands : List String}
    (h : Stands symbols a name operands ws) : isCommand name = true ∧ isEnd name = false := by
  cases h with
  | instruction h =>
    obtain ⟨m, hm, -⟩ := instruction_of_denotes h name
    exact ⟨isCommand_of_ofName? hm, isEnd_of_ofName? hm⟩
  | fill hn h => exact ⟨isCommand_of_directive (d := .fill) hn, isEnd_of_directive (d := .fill) hn⟩
  | block hn h => exact ⟨isCommand_of_directive (d := .blkw) hn, isEnd_of_directive (d := .blkw) hn⟩
  | string hn h =>
    exact ⟨isCommand_of_directive (d := .stringz) hn, isEnd_of_directive (d := .stringz) hn⟩

theorem Command.size_of_words (h : c.words symbols a = .ok ws) :
    ∃ r, c.reservation = .ok r ∧ r.size = .ok ws.length := by
  replace h := words_eq_ok.mp h
  obtain ⟨name, operands⟩ := c
  cases h with
  | instruction h =>
    obtain ⟨m, hm, -⟩ := instruction_of_denotes h name
    rw [reservation, isDirective_of_ofName? (c := ⟨name, operands⟩) hm]
    exact ⟨.word, rfl, rfl⟩
  | @fill operand n hn h =>
    rw [reservation_directive (d := .fill) hn]
    exact ⟨.word, rfl, rfl⟩
  | @block operand count hn h =>
    rw [reservation_directive (d := .blkw) hn]
    refine ⟨.block count, bind_eq_ok.mpr ⟨_, blockCount_eq_ok.mpr h, rfl⟩, ?_⟩
    rw [List.length_replicate]
    exact size_block_eq_ok.mpr rfl
  | @string operand s hn h =>
    rw [reservation_directive (d := .stringz) hn]
    refine ⟨.text (String.ofList s), bind_eq_ok.mpr ⟨_, stringValue_eq_ok.mpr ⟨s, h, rfl⟩, rfl⟩, ?_⟩
    exact congrArg Except.ok (length_stringWords _).symm

theorem Statement.size_of_words {s : Statement} (h : s.words symbols a = .ok ws) :
    s.size = .ok ws.length := by
  unfold words at h
  unfold size
  cases hc : s.command with
  | none =>
    rw [hc] at h
    cases h
    rfl
  | some c =>
    rw [hc] at h
    exact bind_eq_ok.mpr (Command.size_of_words h)

theorem size_of_encodeAll {ss : List Statement} (hw : encodeAll symbols a ss = .ok ws) :
    ∀ s ∈ ss, s.size = .ok s.extent := by
  induction ss generalizing a ws with
  | nil => simp
  | cons s ss ih =>
    obtain ⟨us, vs, hu, hv, -⟩ := encodeAll_cons_eq_ok.mp hw
    have hs := Statement.size_of_words hu
    refine List.forall_mem_cons.mpr ⟨?_, ih hv⟩
    rw [Statement.extent_eq hs]
    exact hs

/-! ## Lines -/

/-- The labels of statements from an address on, with the addresses they stand at. -/
def labelsFrom (a : Int) : List Statement → List (String × Int)
  | [] => []
  | s :: ss => (s.label.toList.map fun name => (name, a)) ++ labelsFrom (a + s.extent) ss

theorem mem_ownLabel {s : Statement} {x : String} {v : Int} :
    (x, v) ∈ (s.label.toList.map fun name => (name, a)) ↔ s.label = some x ∧ v = a := by
  cases s.label <;> simp [eq_comm]

theorem mem_labelsFrom {ss : List Statement} {x : String} {v : Int} :
    (x, v) ∈ labelsFrom a ss ↔ ∃ n, LabelAt ss x n ∧ v = a + (n : Nat) := by
  induction ss generalizing a with
  | nil => simp [labelsFrom, LabelAt]
  | cons s ss ih =>
    rw [labelsFrom, List.mem_append, mem_ownLabel, ih]
    simp only [labelAt_cons]
    constructor
    · rintro (⟨hl, rfl⟩ | ⟨n, hn, rfl⟩)
      · exact ⟨0, .inl ⟨hl, rfl⟩, by simp⟩
      · exact ⟨_, .inr ⟨n, hn, rfl⟩, by push_cast; omega⟩
    · rintro ⟨n, ⟨hl, rfl⟩ | ⟨k, hk, rfl⟩, rfl⟩
      · exact .inl ⟨hl, by simp⟩
      · exact .inr ⟨k, hk, by push_cast; omega⟩

theorem encodeAll_cons_labelsFrom {s : Statement} {ss : List Statement} {us : List Word}
    {bs : List (String × Int)} (hu : s.words symbols a = .ok us)
    (hw : encodeAll symbols (a + us.length) ss = .ok ws)
    (hb : labelsFrom (a + us.length) ss = bs) :
    encodeAll symbols a (s :: ss) = .ok (us ++ ws) ∧
      labelsFrom a (s :: ss) = (s.label.toList.map fun name => (name, a)) ++ bs := by
  refine ⟨encodeAll_cons_eq_ok.mpr ⟨us, ws, hu, hw, rfl⟩, ?_⟩
  rw [labelsFrom, Statement.extent_eq (Statement.size_of_words hu), hb]

/-- A line with a label is told from the other lines by the label alone. -/
theorem statements_label {label : String} (hl : IsLabel label) (line : Nat) (rest : List String)
    (lines : List (List String)) :
    statements line ((label :: rest) :: lines) =
      match afterLabel? rest with
      | none => .ok ⟨[⟨line, some label, none⟩], true⟩
      | some command =>
        return (← statements (line + 1) lines).cons ⟨line, some label, command⟩ := by
  rewrite [statements, isEnd_of_isLabelName hl.1, hl.2, if_neg (by decide), if_neg (by decide),
    if_neg (head?_of_isLabelName hl.1), if_pos hl.1]
  rfl

/-- What the lines of a program are read as: statements that are encoded as its words, with its
labels. -/
theorem statements_of_programLines {lines : List (List String)} {bs : List (String × Int)}
    (h : ProgramLines symbols a lines bs ws) (line : Nat) :
    ∃ ss, statements line lines = .ok ⟨ss, true⟩ ∧ encodeAll symbols a ss = .ok ws ∧
      labelsFrom a ss = bs := by
  induction h generalizing line with
  | @stop a stop ignored rest he =>
    have he : isEnd stop = true := decide_eq_true he
    exact ⟨[], by rw [statements, if_pos he], rfl, rfl⟩
  | @labelledStop a label stop ignored rest hl he =>
    have he : isEnd stop = true := decide_eq_true he
    exact ⟨[_], by rw [statements_label hl, afterLabel?, if_pos he], rfl, rfl⟩
  | empty _ ih =>
    obtain ⟨ss, hs, hw, hb⟩ := ih (line + 1)
    exact ⟨ss, by rw [statements, hs], hw, hb⟩
  | @command a name operands lines bs us ws hc _ ih =>
    obtain ⟨ss, hs, hw, hb⟩ := ih (line + 1)
    have hu := Command.words_eq_ok (c := ⟨name, operands⟩).mpr hc
    obtain ⟨h1, h2⟩ := encodeAll_cons_labelsFrom (s := ⟨line, none, some ⟨name, operands⟩⟩) hu hw hb
    exact ⟨_, by rw [statements, hc.isCommand.2, hc.isCommand.1, hs]; rfl, h1, h2⟩
  | @label a label lines bs ws hl _ ih =>
    obtain ⟨ss, hs, hw, hb⟩ := ih (line + 1)
    rw [← Int.add_zero a] at hw hb
    have hu : Statement.words ⟨line, some label, none⟩ symbols a = .ok [] := rfl
    obtain ⟨h1, h2⟩ := encodeAll_cons_labelsFrom hu hw hb
    exact ⟨_, by rw [statements_label hl, hs]; rfl, h1, h2⟩
  | @labelledCommand a label name operands lines bs us ws hl hc _ ih =>
    obtain ⟨ss, hs, hw, hb⟩ := ih (line + 1)
    have hu := Command.words_eq_ok (c := ⟨name, operands⟩).mpr hc
    obtain ⟨h1, h2⟩ := encodeAll_cons_labelsFrom (s := ⟨line, some label, some ⟨name, operands⟩⟩)
      hu hw hb
    exact ⟨_, by rw [statements_label hl, afterLabel?, hc.isCommand.2, hs]; rfl, h1, h2⟩

theorem cons_eq_ok {x : Except Diagnostic Body} {s : Statement} {ss : List Statement} :
    (do return (← x).cons s : Except Diagnostic Body) = .ok ⟨ss, true⟩ ↔
      ∃ rest, x = .ok ⟨rest, true⟩ ∧ ss = s :: rest := by
  simp only [bind_eq_ok, pure_eq_ok]
  constructor
  · rintro ⟨⟨rest, ended⟩, hx, hb⟩
    cases hb
    exact ⟨rest, hx, rfl⟩
  · rintro ⟨rest, hx, rfl⟩
    exact ⟨_, hx, rfl⟩

/-- The statements of lines that end are encoded only if the lines are those of a program. -/
theorem programLines_of_statements {lines : List (List String)} {line : Nat} {ss : List Statement}
    (hs : statements line lines = .ok ⟨ss, true⟩) (hw : encodeAll symbols a ss = .ok ws) :
    ProgramLines symbols a lines (labelsFrom a ss) ws := by
  induction lines generalizing line a ss ws with
  | nil => cases hs
  | cons tokens lines ih =>
    -- One statement, of which the words come first, and those of the lines behind it.
    have split {s : Statement} {rest : List Statement}
        (hw : encodeAll symbols a (s :: rest) = .ok ws)
        (hs : statements (line + 1) lines = .ok ⟨rest, true⟩) :
        ∃ us vs, s.words symbols a = .ok us ∧ us ++ vs = ws ∧
          s.extent = us.length ∧
          ProgramLines symbols (a + us.length) lines (labelsFrom (a + us.length) rest) vs := by
      obtain ⟨us, vs, hu, hv, rfl⟩ := encodeAll_cons_eq_ok.mp hw
      exact ⟨us, vs, hu, rfl, Statement.extent_eq (Statement.size_of_words hu), ih hs hv⟩
    cases tokens with
    | nil => exact .empty (ih hs hw)
    | cons first rest =>
      by_cases hend : isEnd first = true
      · rw [statements, if_pos hend] at hs
        cases hs
        cases hw
        exact .stop (of_decide_eq_true hend)
      by_cases hcmd : isCommand first = true
      · rw [statements, if_neg hend, if_pos hcmd] at hs
        obtain ⟨ss, hrest, rfl⟩ := cons_eq_ok.mp hs
        obtain ⟨us, vs, hu, rfl, hx, hp⟩ := split hw hrest
        rw [labelsFrom, hx]
        exact .command (Command.words_eq_ok.mp hu) hp
      by_cases hdot : first.toList.head? = some '.'
      · rw [statements, if_neg hend, if_neg hcmd, if_pos hdot] at hs
        cases hs
      by_cases hname : isLabelName first = true
      · have hl : IsLabel first := ⟨hname, by simpa using hcmd⟩
        rw [statements_label hl] at hs
        cases rest with
        | nil =>
          obtain ⟨ss, hrest, rfl⟩ := cons_eq_ok.mp hs
          obtain ⟨us, vs, hu, rfl, hx, hp⟩ := split hw hrest
          cases hu
          rw [labelsFrom, hx]
          rw [List.length_nil, Int.natCast_zero, Int.add_zero] at hp ⊢
          exact .label hl hp
        | cons name operands =>
          rw [afterLabel?] at hs
          by_cases hstop : isEnd name = true
          · rw [if_pos hstop] at hs
            cases hs
            obtain rfl : [] = ws := Except.ok.inj hw
            exact .labelledStop hl (of_decide_eq_true hstop)
          · rw [if_neg hstop] at hs
            obtain ⟨ss, hrest, rfl⟩ := cons_eq_ok.mp hs
            obtain ⟨us, vs, hu, rfl, hx, hp⟩ := split hw hrest
            rw [labelsFrom, hx]
            exact .labelledCommand hl (Command.words_eq_ok.mp hu) hp
      · rw [statements, if_neg hend, if_neg hcmd, if_neg hdot, if_neg hname] at hs
        cases hs

/-! ## Layout -/

/-- The table binds the labels, and what was bound before. -/
def Binds (old new : SymbolTable) (bs : List (String × Int)) : Prop :=
  ∀ name v, new[name]? = some v ↔ old[name]? = some v ∨ (name, v) ∈ bs

theorem placeAll_of_binds {ss : List Statement} {old new : SymbolTable}
    (hsize : ∀ s ∈ ss, s.size = .ok s.extent) (hnew : Binds old new (labelsFrom a ss))
    (hl : ∀ b ∈ labelsFrom a ss, b.2 < memorySize) (hstop : a + extent ss ≤ memorySize) :
    placeAll old a ss = .ok (new, a + extent ss) := by
  induction ss generalizing old a with
  | nil =>
    have h : old = new := Std.ExtTreeMap.ext_getElem? fun name => Option.ext fun v => by
      simpa [labelsFrom] using (hnew name v).symm
    rw [h, placeAll, extent_nil, Int.natCast_zero, Int.add_zero]
  | cons s ss ih =>
    -- The label of `s` can be bound, since the table that all are bound in has one address for it.
    obtain ⟨t, ht⟩ : ∃ t, s.bind old a = .ok t := by
      cases hs : s.label with
      | none => exact ⟨old, Statement.bind_iff.mpr (.inl ⟨hs, rfl⟩)⟩
      | some name =>
        have hmem : (name, a) ∈ labelsFrom a (s :: ss) := by simp [labelsFrom, hs]
        refine ⟨_, Statement.bind_iff.mpr (.inr ⟨name, hs, hl _ hmem, fun b hb => ?_, rfl⟩)⟩
        have h1 := (hnew name b).mpr (.inl hb)
        have h2 := (hnew name a).mpr (.inr hmem)
        exact Option.some.inj (h1.symm.trans h2)
    have hrest : Binds t new (labelsFrom (a + s.extent) ss) := by
      intro name v
      rw [hnew, s.getElem?_bind ht, or_assoc, labelsFrom, List.mem_append, mem_ownLabel]
    have hadd : a + (s.extent : Int) + extent ss = a + extent (s :: ss) := by
      rw [extent_cons]
      push_cast
      omega
    have hp := ih (fun s' hs' => hsize s' (by simp [hs'])) hrest
      (fun b hb => hl b (by simp [labelsFrom, hb])) (by omega)
    rw [hadd] at hp
    exact placeAll_cons_eq_ok.mpr ⟨t, ht, hsize s (by simp), by omega, hp⟩

theorem bounds_of_placeAll {ss : List Statement} {old new : SymbolTable} {stop : Int}
    (ha : a ≤ memorySize) (h : placeAll old a ss = .ok (new, stop)) :
    stop ≤ memorySize ∧ ∀ b ∈ labelsFrom a ss, b.2 < memorySize := by
  induction ss generalizing old a with
  | nil =>
    cases h
    exact ⟨ha, by simp [labelsFrom]⟩
  | cons s ss ih =>
    obtain ⟨t, ht, -, hm, hr⟩ := placeAll_cons_eq_ok.mp h
    obtain ⟨h1, h2⟩ := ih hm hr
    refine ⟨h1, fun b hb => ?_⟩
    rcases List.mem_append.mp hb with hb | hb
    · obtain ⟨name, hn, rfl⟩ := List.mem_map.mp hb
      rcases Statement.bind_iff.mp ht with ⟨hl, -⟩ | ⟨-, -, hlt, -⟩
      · simp [hl] at hn
      · exact hlt
    · exact h2 b hb

/-! ## Sources -/

theorem layout_of_placeAll {lines : List (List String)} {orig stop : Int} {start : Nat} {b : Body}
    {t : SymbolTable} (hb : bodyFrom lines start = .ok b) (he : b.ended = true)
    (hp : placeAll ∅ orig b.statements = .ok (t, stop)) :
    layout lines orig start = .ok ⟨t, stop - orig⟩ := by
  unfold layout
  rw [hb]
  simp [hp, he, bind, Except.bind, pure, Except.pure]

theorem originAddress_operand {directive operand : String} (hd : Text.upper directive = ".ORIG") :
    originAddress [directive, operand] = (do
      match ← orFault (Literal.value? operand) with
      | none => throw (.originLiteral operand)
      | some address =>
        if 0 ≤ address ∧ address < memorySize then return address
        throw (.originRange operand)) := by
  have hd : isOrigin directive = true := decide_eq_true hd
  have hany : (!([directive, operand]).any isOrigin) = false := by simp [hd]
  simp only [originAddress]
  rw [hany, hd]
  rfl

/-- Of any other line no operand is read. -/
theorem originAddress_cases (line : List String) :
    (∃ directive operand, line = [directive, operand] ∧ Text.upper directive = ".ORIG") ∨
      ∃ cause s, originAddress line = .error cause ∧ cause.message = .ok s := by
  cases line with
  | nil => exact .inr ⟨_, _, rfl, rfl⟩
  | cons directive operands =>
    by_cases hd : isOrigin directive = true
    · have hany : (!(directive :: operands).any isOrigin) = false := by simp [hd]
      rcases operands with _ | ⟨operand, _ | ⟨second, rest⟩⟩
      · refine .inr ⟨.originOperands 0, _, ?_, rfl⟩
        simp only [originAddress]
        rw [hany, hd]
        rfl
      · exact .inl ⟨directive, operand, rfl, of_decide_eq_true hd⟩
      · refine .inr ⟨.originOperands (rest.length + 2), _, ?_, rfl⟩
        simp only [originAddress]
        rw [hany, hd]
        rfl
    · rw [Bool.not_eq_true] at hd
      simp only [originAddress]
      rw [hd]
      cases (directive :: operands).any isOrigin with
      | false => exact .inr ⟨.missingOrigin, _, rfl, rfl⟩
      | true => exact .inr ⟨.labelledOrigin, _, rfl, rfl⟩

theorem originAddress_eq_ok {line : List String} {address : Int} :
    originAddress line = .ok address ↔ ∃ directive operand, line = [directive, operand] ∧
      Text.upper directive = ".ORIG" ∧ Literal.value? operand = .ok (some address) ∧
        0 ≤ address ∧ address ≤ 0xFFFF := by
  constructor
  · intro h
    rcases originAddress_cases line with ⟨directive, operand, rfl, hd⟩ | ⟨cause, -, he, -⟩
    · rw [originAddress_operand hd] at h
      obtain ⟨v, hv, h⟩ := bind_eq_ok.mp h
      have hv := orFault_eq_ok.mp hv
      cases v with
      | none => exact absurd h throw_ne_ok
      | some n =>
        simp only at h
        split at h
        · rename_i hr
          obtain rfl := pure_eq_ok.mp h
          unfold memorySize at hr
          exact ⟨directive, operand, rfl, hd, hv, hr.1, by omega⟩
        · exact absurd h throw_ne_ok
    · rw [he] at h
      cases h
  · rintro ⟨directive, operand, rfl, hd, hv, h0, hr⟩
    have hr : 0 ≤ address ∧ address < memorySize := ⟨h0, by unfold memorySize; omega⟩
    rw [originAddress_operand hd, bind_eq_ok]
    exact ⟨_, orFault_eq_ok.mpr hv, by simp only [if_pos hr]; rfl⟩

theorem findOrigin_behind {blank rest : List (List String)} {line : List String}
    (hblank : ∀ l ∈ blank, l = []) (hne : line ≠ []) :
    findOrigin (blank ++ line :: rest) = (do
      let address ← atLine (blank.length + 1) (originAddress line)
      return ⟨address, blank.length + 1⟩) := by
  have hi : (blank ++ line :: rest).findIdx? (!·.isEmpty) = some blank.length := by
    refine List.findIdx?_eq_some_iff_getElem.mpr ⟨by simp, by simp [hne], fun j hj => ?_⟩
    rw [List.getElem_append_left hj, hblank _ (List.getElem_mem hj)]
    simp
  have hline : (blank ++ line :: rest).getD blank.length [] = line := by simp
  simp only [findOrigin, hi, hline]

theorem findOrigin_cases (lines : List (List String)) :
    findOrigin lines = .error ⟨1, .emptyProgram⟩ ∨ ∃ blank line rest,
      lines = blank ++ line :: rest ∧ (∀ l ∈ blank, l = []) ∧ line ≠ [] := by
  cases hi : lines.findIdx? (!·.isEmpty) with
  | none => exact .inl (by rw [findOrigin, hi])
  | some i =>
    obtain ⟨hlt, hline, hempty⟩ := List.findIdx?_eq_some_iff_getElem.mp hi
    refine .inr ⟨lines.take i, lines[i], lines.drop (i + 1), ?_, fun l hl => ?_, by simpa using hline⟩
    · rw [List.getElem_cons_drop hlt, List.take_append_drop]
    · obtain ⟨j, hj, rfl⟩ := List.getElem_of_mem hl
      rw [List.length_take] at hj
      rw [List.getElem_take]
      simpa using hempty j (by omega)

theorem findOrigin_eq_ok {lines : List (List String)} {o : Origin} :
    findOrigin lines = .ok o ↔ ∃ blank directive operand rest,
      lines = blank ++ [directive, operand] :: rest ∧ (∀ line ∈ blank, line = []) ∧
        o.start = blank.length + 1 ∧ Text.upper directive = ".ORIG" ∧
          Literal.value? operand = .ok (some o.address) ∧ 0 ≤ o.address ∧ o.address ≤ 0xFFFF := by
  constructor
  · intro h
    rcases findOrigin_cases lines with ho | ⟨blank, line, rest, rfl, hblank, hne⟩
    · rw [ho] at h
      cases h
    · simp only [findOrigin_behind hblank hne, bind_eq_ok, atLine_eq_ok, pure_eq_ok] at h
      obtain ⟨address, ha, rfl⟩ := h
      obtain ⟨directive, operand, rfl, hd, hv, hr⟩ := originAddress_eq_ok.mp ha
      exact ⟨blank, directive, operand, rest, rfl, hblank, rfl, hd, hv, hr⟩
  · rintro ⟨blank, directive, operand, rest, rfl, hblank, hstart, hd, hv, hr⟩
    have ha := originAddress_eq_ok.mpr ⟨directive, operand, rfl, hd, hv, hr⟩
    simp only [findOrigin_behind hblank (List.cons_ne_nil _ _), bind_eq_ok, atLine_eq_ok,
      pure_eq_ok]
    exact ⟨_, ha, by rw [← hstart]⟩

theorem bodyFrom_behind (blank : List (List String)) (line : List String)
    (lines : List (List String)) :
    bodyFrom (blank ++ line :: lines) (blank.length + 1) = statements (blank.length + 2) lines := by
  rw [bodyFrom]
  congr 1
  simp

/-- The assembler reads exactly the language of sources, and gives the programs that they mean. -/
theorem program_iff {lines : List (List String)} {p : Program} :
    program lines = .ok p ↔ Means lines p := by
  constructor
  · intro h
    simp only [program, bind_eq_ok, pure_eq_ok] at h
    obtain ⟨o, ho, l, hl, code, hc, rfl⟩ := h
    obtain ⟨blank, directive, operand, rest, rfl, hblank, hstart, hd, hv, h0, hmax⟩ :=
      findOrigin_eq_ok.mp ho
    obtain ⟨body, hb, he, hp⟩ := layout_eq_ok hl
    rw [machineCode_eq hb he] at hc
    rw [hstart, bodyFrom_behind] at hb
    obtain ⟨ss, ended⟩ := body
    obtain rfl : ended = true := he
    obtain ⟨hstop, hsize⟩ := placeAll_eq_ok hp
    have hlen := length_encodeAll hsize hc
    obtain ⟨hm, hlabels⟩ := bounds_of_placeAll (by unfold memorySize; omega) hp
    refine .intro hblank hd hv ⟨h0, hmax⟩ (programLines_of_statements hb hc) ?_ ?_ ?_
    · intro name v
      rw [mem_labelsFrom, getElem?_placeAll hp]
      simp
    · intro b hb
      have := hlabels b hb
      unfold memorySize at this
      omega
    · unfold memorySize at hm
      omega
  · rintro ⟨hblank, hd, hv, hr, h, hs, hl, hw⟩
    rename_i blank lines directive operand orig symbols bs ws
    have ho : findOrigin (blank ++ [directive, operand] :: lines) =
        .ok ⟨orig, blank.length + 1⟩ :=
      findOrigin_eq_ok.mpr ⟨blank, directive, operand, lines, rfl, hblank, rfl, hd, hv, hr⟩
    obtain ⟨ss, hss, hcode, rfl⟩ := statements_of_programLines h (blank.length + 2)
    have hbody : bodyFrom (blank ++ [directive, operand] :: lines) (blank.length + 1) =
        .ok ⟨ss, true⟩ := by
      rw [bodyFrom_behind, hss]
    have hsize := size_of_encodeAll hcode
    have hlen := length_encodeAll hsize hcode
    have hp : placeAll ∅ orig ss = .ok (symbols, orig + extent ss) := by
      refine placeAll_of_binds hsize (fun name v => ?_) (fun b hb => ?_) ?_
      · rw [hs]
        simp
      · have := hl b hb
        unfold memorySize
        omega
      · unfold memorySize
        omega
    have hlay := layout_of_placeAll hbody rfl hp
    have hmachine : machineCode (blank ++ [directive, operand] :: lines) symbols orig
        (blank.length + 1) = .ok ws :=
      (machineCode_eq hbody rfl).trans hcode
    simp only [program, bind_eq_ok, pure_eq_ok]
    exact ⟨_, ho, _, hlay, ws, hmachine, rfl⟩

theorem assemble_eq_success {text : String} {p : Program} :
    assemble text = .ok (.success p) ↔ program (tokenize text) = .ok p := by
  unfold assemble
  split
  · rename_i r hr
    simp [hr]
  · rename_i d hd
    cases d.message <;> simp [hd, Functor.map, Except.map]

end LC3.Assembly
