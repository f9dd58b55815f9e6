import LC3.Proofs.Assembly.Grammar

/-!
# Relocation

What moving a program to another origin does. Every symbol moves along, and so does the program
counter, so that the distances between them stay: an instruction is encoded as the same word
wherever it stands, and only a `.FILL` of a label holds an address that moves
(`Statement.words_moved`). `relocated_of_assemble` takes this to two sources that differ in their
origins alone.
-/

namespace LC3

/-- All symbols, moved by the same distance. -/
def SymbolTable.moved (t : SymbolTable) (d : Int) : SymbolTable :=
  t.map fun _ a => a + d

theorem SymbolTable.getElem?_moved (t : SymbolTable) (d : Int) (name : String) :
    (t.moved d)[name]? = t[name]?.map (· + d) :=
  Std.ExtTreeMap.getElem?_map

namespace Assembly

/-! ## Commands -/

/-- A `.FILL` of a label: the operand is no literal. -/
def Command.fillsLabel (c : Command) : Bool :=
  Text.upper c.name = ".FILL" &&
    match c.operands with
    | [operand] => (Literal.value? operand matches .ok none)
    | _ => false

def Statement.fillsLabel (s : Statement) : Bool :=
  s.command.any Command.fillsLabel

/-- Words of a program that has moved; they change if they are addresses. -/
def relocate (address : Bool) (d : Int) (ws : List Word) : List Word :=
  if address then ws.map (· + Word.ofInt d) else ws

theorem length_relocate (address : Bool) (d : Int) (ws : List Word) :
    (relocate address d ws).length = ws.length := by
  unfold relocate
  split
  · exact List.length_map _
  · rfl

theorem offset_moved (pc d : Int) (operand : String) (symbols : SymbolTable) (bits : Nat) :
    offset (pc + d) operand (symbols.moved d) bits = offset pc operand symbols bits := by
  have hdistance (v : Int) : v + d - (pc + d) = v - pc := by omega
  unfold offset
  rw [SymbolTable.getElem?_moved]
  cases symbols[operand]? with
  | none => rfl
  | some v => simp only [Option.map_some, hdistance]

theorem Mnemonic.instruction_moved (m : Mnemonic) (operands : List String) (name : String)
    (pc d : Int) (symbols : SymbolTable) :
    m.instruction operands ⟨name, pc + d, symbols.moved d⟩ =
      m.instruction operands ⟨name, pc, symbols⟩ := by
  have hfield (operand : String) (bits : Nat) :
      Site.offsetField ⟨name, pc + d, symbols.moved d⟩ operand bits =
        Site.offsetField ⟨name, pc, symbols⟩ operand bits := by
    unfold Site.offsetField
    rw [offset_moved]
  unfold instruction
  simp only [hfield]

theorem Command.instructionWord_moved (c : Command) (pc d : Int) (symbols : SymbolTable) :
    c.instructionWord (pc + d) (symbols.moved d) = c.instructionWord pc symbols := by
  unfold instructionWord Command.instruction
  simp only [Mnemonic.instruction_moved]

theorem fillWord_moved (operand : String) (d : Int) (symbols : SymbolTable) :
    (do return [← fillWord operand (symbols.moved d)]) =
      relocate (Literal.value? operand matches .ok none) d <$>
        (do return [← fillWord operand symbols]) := by
  unfold fillWord
  rw [SymbolTable.getElem?_moved]
  cases Literal.value? operand with
  | error f => rfl
  | ok v =>
    cases v with
    | some n => rfl
    | none =>
      cases symbols[operand]? with
      | none => rfl
      | some v => exact congrArg (fun w => Except.ok [w]) (BitVec.ofInt_add v d)

/-- Of all directives only a `.FILL` looks at the symbols. -/
theorem Command.directiveWords_moved (c : Command) (d : Int) (symbols : SymbolTable) :
    c.directiveWords (symbols.moved d) = relocate c.fillsLabel d <$> c.directiveWords symbols := by
  unfold directiveWords
  cases hd : Directive.ofName? (Text.upper c.name) with
  | none => rfl
  | some e =>
    have hname := Directive.name_of_ofName? hd
    unfold fillsLabel
    rw [← hname]
    rcases c.operands with _ | ⟨operand, _ | ⟨second, rest⟩⟩
    · rfl
    · cases e with
      | fill => exact fillWord_moved operand d symbols
      | blkw => exact (id_map _).symm
      | stringz => exact (id_map _).symm
    · rfl

theorem Command.words_moved (c : Command) (a d : Int) (symbols : SymbolTable) :
    c.words (symbols.moved d) (a + d) = relocate c.fillsLabel d <$> c.words symbols a := by
  have hpc : a + d + 1 = a + 1 + d := by omega
  unfold words
  split
  · exact c.directiveWords_moved d symbols
  · rename_i hd
    have hfill : c.fillsLabel = false := Bool.eq_false_iff.mpr fun hf => by
      rw [fillsLabel, Bool.and_eq_true] at hf
      exact hd (isDirective_of_directive (d := .fill) (of_decide_eq_true hf.1))
    rw [hpc, c.instructionWord_moved, hfill]
    exact (id_map _).symm

/-- Only the address that a `.FILL` takes from a label moves along with the program. -/
theorem Statement.words_moved (s : Statement) (a d : Int) (symbols : SymbolTable) :
    s.words (symbols.moved d) (a + d) = relocate s.fillsLabel d <$> s.words symbols a := by
  unfold words fillsLabel
  cases s.command with
  | none => rfl
  | some c => exact c.words_moved a d symbols

/-! ## Statements -/

/-- The word at this index is that of a `.FILL` of a label: it comes behind the words of the
statements in front. -/
def FillsLabelAt (symbols : SymbolTable) (a : Int) (ss : List Statement) (i : Nat) : Prop :=
  ∃ before s after us, ss = before ++ s :: after ∧ s.fillsLabel = true ∧
    encodeAll symbols a before = .ok us ∧ i = us.length

theorem Statement.length_words_of_fillsLabel {s : Statement} {symbols : SymbolTable} {a : Int}
    {us : List Word} (hf : s.fillsLabel = true) (hu : s.words symbols a = .ok us) :
    us.length = 1 := by
  unfold fillsLabel at hf
  unfold words at hu
  rcases hc : s.command with _ | ⟨name, operands⟩
  · rw [hc] at hf
    cases hf
  · simp only [hc, Option.any_some, Command.fillsLabel, Bool.and_eq_true] at hf
    obtain ⟨hn, hl⟩ := hf
    rw [hc] at hu
    rcases operands with _ | ⟨operand, _ | ⟨second, rest⟩⟩
    · cases hl
    · simp only [Command.words_directive (d := .fill) (of_decide_eq_true hn), Directive.words,
        bind_eq_ok, pure_eq_ok] at hu
      obtain ⟨w, -, rfl⟩ := hu
      rfl
    · cases hl

section

variable {symbols : SymbolTable} {a : Int} {s : Statement} {ss : List Statement} {us : List Word}

theorem fillsLabelAt_lt (hu : s.words symbols a = .ok us) {i : Nat} (hi : i < us.length) :
    FillsLabelAt symbols a (s :: ss) i ↔ s.fillsLabel = true := by
  constructor
  · rintro ⟨before, s', after, vs, hss, hf, hv, rfl⟩
    cases before with
    | nil =>
      cases hss
      exact hf
    | cons s₀ before =>
      obtain ⟨rfl, rfl⟩ := List.cons.inj hss
      obtain ⟨us', vs, hu', hr, rfl⟩ := encodeAll_cons_eq_ok.mp hv
      obtain rfl := Except.ok.inj (hu.symm.trans hu')
      rw [List.length_append] at hi
      omega
  · intro hf
    have h1 := s.length_words_of_fillsLabel hf hu
    exact ⟨[], s, ss, [], rfl, hf, rfl, by rw [List.length_nil]; omega⟩

theorem fillsLabelAt_add (hu : s.words symbols a = .ok us) {i : Nat} :
    FillsLabelAt symbols a (s :: ss) (us.length + i) ↔
      FillsLabelAt symbols (a + us.length) ss i := by
  constructor
  · rintro ⟨before, s', after, vs, hss, hf, hv, hi⟩
    cases before with
    | nil =>
      cases hss
      cases hv
      have h1 := s.length_words_of_fillsLabel hf hu
      rw [List.length_nil] at hi
      omega
    | cons s₀ before =>
      obtain ⟨rfl, rfl⟩ := List.cons.inj hss
      obtain ⟨us', vs, hu', hr, rfl⟩ := encodeAll_cons_eq_ok.mp hv
      obtain rfl := Except.ok.inj (hu.symm.trans hu')
      rw [List.length_append] at hi
      exact ⟨before, s', after, vs, rfl, hf, hr, by omega⟩
  · rintro ⟨before, s', after, vs, rfl, hf, hv, rfl⟩
    exact ⟨s :: before, s', after, us ++ vs, rfl, hf,
      encodeAll_cons_eq_ok.mpr ⟨us, vs, hu, hv, rfl⟩, List.length_append.symm⟩

end

/-- The words have moved by a distance: they are the same, but for the addresses among them. -/
structure WordsMoved (address : Nat → Prop) (d : Int) (ws ws' : List Word) : Prop where
  length : ws'.length = ws.length
  moved : ∀ i w, ws[i]? = some w → address i → ws'[i]? = some (w + Word.ofInt d)
  kept : ∀ i w, ws[i]? = some w → ¬address i → ws'[i]? = some w

theorem encodeAll_moved {ss : List Statement} {symbols : SymbolTable} {a : Int} {ws : List Word}
    (h : encodeAll symbols a ss = .ok ws) (d : Int) :
    ∃ ws', encodeAll (symbols.moved d) (a + d) ss = .ok ws' ∧
      WordsMoved (FillsLabelAt symbols a ss) d ws ws' := by
  induction ss generalizing a ws with
  | nil =>
    cases h
    exact ⟨[], rfl, rfl, by simp, by simp⟩
  | cons s ss ih =>
    obtain ⟨us, vs, hu, hv, rfl⟩ := encodeAll_cons_eq_ok.mp h
    obtain ⟨vs', hv', hvs⟩ := ih hv
    have hu' : s.words (symbols.moved d) (a + d) = .ok (relocate s.fillsLabel d us) := by
      rw [s.words_moved, hu]
      rfl
    have hlen := length_relocate s.fillsLabel d us
    have hadd : a + d + (relocate s.fillsLabel d us).length = a + us.length + d := by omega
    refine ⟨_, encodeAll_cons_eq_ok.mpr ⟨_, vs', hu', hadd ▸ hv', rfl⟩, ?_, ?_, ?_⟩
    · rw [List.length_append, List.length_append, hlen, hvs.length]
    · intro i w hw hi
      by_cases hlt : i < us.length
      · rw [List.getElem?_append_left hlt] at hw
        rw [List.getElem?_append_left (by omega), (fillsLabelAt_lt hu hlt).mp hi]
        simp [relocate, hw]
      · obtain ⟨j, rfl⟩ := Nat.exists_eq_add_of_le (Nat.not_lt.mp hlt)
        rw [List.getElem?_append_right (by omega)] at hw ⊢
        rw [Nat.add_sub_cancel_left] at hw
        rw [hlen, Nat.add_sub_cancel_left]
        exact hvs.moved j w hw ((fillsLabelAt_add hu).mp hi)
    · intro i w hw hi
      by_cases hlt : i < us.length
      · rw [List.getElem?_append_left hlt] at hw
        rw [List.getElem?_append_left (by omega),
          Bool.eq_false_iff.mpr (mt (fillsLabelAt_lt hu hlt).mpr hi)]
        exact hw
      · obtain ⟨j, rfl⟩ := Nat.exists_eq_add_of_le (Nat.not_lt.mp hlt)
        rw [List.getElem?_append_right (by omega)] at hw ⊢
        rw [Nat.add_sub_cancel_left] at hw
        rw [hlen, Nat.add_sub_cancel_left]
        exact hvs.kept j w hw (mt (fillsLabelAt_add hu).mpr hi)

/-! ## Sources -/

theorem mem_labelsFrom_moved {ss : List Statement} {a d : Int} {name : String} {v : Int} :
    (name, v) ∈ labelsFrom (a + d) ss ↔ (name, v - d) ∈ labelsFrom a ss := by
  rw [mem_labelsFrom, mem_labelsFrom]
  refine exists_congr fun n => and_congr_right fun _ => ?_
  omega

/-- Statements can be laid out wherever there is memory for them and their labels. -/
theorem placeAll_moved {ss : List Statement} {symbols : SymbolTable} {a stop d : Int}
    (h : placeAll ∅ a ss = .ok (symbols, stop)) (hstop : stop + d ≤ memorySize)
    (hl : ∀ (name : String) v, symbols[name]? = some v → v + d < memorySize) :
    placeAll ∅ (a + d) ss = .ok (symbols.moved d, stop + d) := by
  obtain ⟨rfl, hsize⟩ := placeAll_eq_ok h
  have hbound {name : String} {v : Int} :
      symbols[name]? = some v ↔ (name, v) ∈ labelsFrom a ss := by
    rw [getElem?_placeAll h, mem_labelsFrom]
    simp
  have hadd : a + extent ss + d = a + d + extent ss := by omega
  rw [hadd]
  refine placeAll_of_binds hsize (fun name v => ?_) (fun ⟨name, v⟩ hb => ?_) (by omega)
  · rw [SymbolTable.getElem?_moved, mem_labelsFrom_moved, ← hbound]
    simp only [Option.map_eq_some_iff, Std.ExtTreeMap.getElem?_empty, reduceCtorEq, false_or]
    constructor
    · rintro ⟨u, hu, rfl⟩
      rwa [Int.add_sub_cancel]
    · intro hv
      exact ⟨v - d, hv, Int.sub_add_cancel v d⟩
  · have := hl name (v - d) (hbound.mpr (mem_labelsFrom_moved.mp hb))
    omega

/-- The lines are the same but for the operand of the origin, which in the second ones is a literal
of this value. -/
def DifferInOrigin (lines lines' : List (List String)) (y : Int) : Prop :=
  ∃ (blank : List (List String)) (directive operand operand' : String) (rest : List (List String)),
    lines = blank ++ [directive, operand] :: rest ∧
      lines' = blank ++ [directive, operand'] :: rest ∧ (∀ line ∈ blank, line = []) ∧
        Text.upper directive = ".ORIG" ∧ Literal.value? operand' = .ok (some y)

/-- Behind the origins, the lines hold the same statements. -/
theorem DifferInOrigin.findOrigin {lines lines' : List (List String)} {o : Origin} {y : Int}
    (h : DifferInOrigin lines lines' y) (hy : 0 ≤ y ∧ y ≤ 0xFFFF)
    (ho : Assembly.findOrigin lines = .ok o) :
    Assembly.findOrigin lines' = .ok ⟨y, o.start⟩ ∧
      bodyFrom lines' o.start = bodyFrom lines o.start := by
  obtain ⟨blank, directive, operand, operand', rest, rfl, rfl, hblank, hdir, hv⟩ := h
  have hstart : o.start = blank.length + 1 := by
    rw [findOrigin_behind hblank (List.cons_ne_nil _ _), bind_eq_ok] at ho
    obtain ⟨x, -, ho⟩ := ho
    cases ho
    rfl
  rw [hstart, bodyFrom_behind, bodyFrom_behind]
  exact ⟨findOrigin_eq_ok.mpr ⟨blank, directive, operand', rest, rfl, hblank, rfl, hdir, hv, hy⟩,
    rfl⟩

/-- The second program is the first one, moved by a distance. -/
structure Relocated (ss : List Statement) (p q : Program) (d : Int) : Prop where
  orig : q.orig = p.orig + d
  symbols : ∀ name : String, q.symbols[name]? = p.symbols[name]?.map (· + d)
  size : q.size = p.size
  /-- The address that a `.FILL` takes from a label moves along. -/
  address : ∀ i w, p.code[i]? = some w → FillsLabelAt p.symbols p.orig ss i →
    q.code[i]? = some ((w + d) % 0x10000)
  /-- Every other word stays as it is. -/
  word : ∀ i w, p.code[i]? = some w → ¬FillsLabelAt p.symbols p.orig ss i → q.code[i]? = some w

theorem toNat_add_ofInt (w : Word) (d : Int) :
    ((w + Word.ofInt d).toNat : Int) = (w.toNat + d) % 0x10000 := by
  have hd := Word.toNat_ofInt d
  rw [BitVec.toNat_add]
  omega

/-- A program that is laid out and encoded can be so from every other address on that leaves memory
for its words and its labels. -/
theorem program_moved {lines lines' : List (List String)} {o : Origin} {y : Int} {p : Program}
    (ho : findOrigin lines = .ok o) (ho' : findOrigin lines' = .ok ⟨y, o.start⟩)
    (hbody : bodyFrom lines' o.start = bodyFrom lines o.start) (hp : program lines = .ok p)
    (hsize : y + p.size ≤ 0x10000)
    (hl : ∀ (name : String) v, p.symbols[name]? = some v → v - p.orig + y ≤ 0xFFFF) :
    ∃ q body, program lines' = .ok q ∧ bodyFrom lines' o.start = .ok body ∧
      Relocated body.statements p q (y - p.orig) := by
  simp only [program, bind_eq_ok, pure_eq_ok, ho, Except.ok.injEq, exists_eq_left'] at hp
  obtain ⟨l, hlayout, ws, hws, rfl⟩ := hp
  obtain ⟨body, hb, he, hplace⟩ := layout_eq_ok hlayout
  have hb' := hbody.trans hb
  rw [machineCode_eq hb he] at hws
  obtain ⟨hstop, hextent⟩ := placeAll_eq_ok hplace
  have hlength := length_encodeAll hextent hws
  obtain ⟨x, start⟩ := o
  have hsum : x + (y - x) = y := by omega
  have hplace' : placeAll ∅ (x + (y - x)) body.statements =
      .ok (l.symbols.moved (y - x), x + l.length + (y - x)) := by
    refine placeAll_moved hplace ?_ fun name v hv => ?_
    · rw [Program.size, List.length_map] at hsize
      unfold memorySize
      omega
    · have : v - x + y ≤ 0xFFFF := hl name v hv
      unfold memorySize
      omega
  obtain ⟨ws', hws', hmoved⟩ := encodeAll_moved hws (y - x)
  rw [hsum] at hplace' hws'
  have hlayout' := layout_of_placeAll hb' he hplace'
  have hcode' : machineCode lines' (l.symbols.moved (y - x)) y start = .ok ws' :=
    (machineCode_eq hb' he).trans hws'
  refine ⟨⟨y, ws'.map fun w => (w.toNat : Int), l.symbols.moved (y - x)⟩, body, ?_, hb', ?_⟩
  · simp only [program, bind_eq_ok, pure_eq_ok]
    exact ⟨_, ho', _, hlayout', ws', hcode', rfl⟩
  · refine ⟨hsum.symm, l.symbols.getElem?_moved (y - x), ?_, ?_, ?_⟩
    · simp only [Program.size, List.length_map, hmoved.length]
    · intro i w hi hfill
      simp only [List.getElem?_map, Option.map_eq_some_iff] at hi ⊢
      obtain ⟨w, hw, rfl⟩ := hi
      exact ⟨_, hmoved.moved i w hw hfill, toNat_add_ofInt w (y - x)⟩
    · intro i w hi hfill
      simp only [List.getElem?_map, Option.map_eq_some_iff] at hi ⊢
      obtain ⟨w, hw, rfl⟩ := hi
      exact ⟨w, hmoved.kept i w hw hfill, rfl⟩

/-- A source that is assembled is assembled with every other origin too from which on there is
memory for its words and its labels. The symbols move along, and of the words only those that a
`.FILL` takes from a label. -/
theorem relocated_of_assemble {text text' : String} {p : Program} {y : Int}
    (hd : DifferInOrigin (tokenize text) (tokenize text') y) (hy : 0 ≤ y ∧ y ≤ 0xFFFF)
    (hp : assemble text = .ok (.success p)) (hsize : y + p.size ≤ 0x10000)
    (hl : ∀ (name : String) v, p.symbols[name]? = some v → v - p.orig + y ≤ 0xFFFF) :
    ∃ q o body, assemble text' = .ok (.success q) ∧ findOrigin (tokenize text') = .ok o ∧
      bodyFrom (tokenize text') o.start = .ok body ∧
        Relocated body.statements p q (y - p.orig) := by
  rw [assemble_eq_success] at hp
  obtain ⟨o, ho, -⟩ := bind_eq_ok.mp hp
  obtain ⟨ho', hbody⟩ := hd.findOrigin hy ho
  obtain ⟨q, body, hq, hb, hmoved⟩ := program_moved ho ho' hbody hp hsize hl
  exact ⟨q, _, body, assemble_eq_success.mpr hq, ho', hb, hmoved⟩

/-- Moved to the end of memory, where the last label is that of the last cell. -/
theorem relocated_of_assemble_end :
    let text := ".ORIG x3000\nLOOP ldi r0, LAST\nLAST .fill LOOP\n.END"
    let text' := ".ORIG #65534\nLOOP ldi r0, LAST\nLAST .fill LOOP\n.END"
    let p : Program := ⟨0x3000, [0xA000, 0x3000],
      SymbolTable.ofList [("LOOP", 0x3000), ("LAST", 0x3001)]⟩
    DifferInOrigin (tokenize text) (tokenize text') 0xFFFE ∧ assemble text = .ok (.success p) ∧
      (0xFFFE : Int) + p.size ≤ 0x10000 ∧
      (∀ (name : String) v, p.symbols[name]? = some v → v - p.orig + 0xFFFE ≤ 0xFFFF) ∧
      ∃ q, assemble text' = .ok (.success q) ∧ q.symbols["LAST"]? = some 0xFFFF ∧
        q.code[1]? = some 0xFFFE := by
  intro text text' p
  let rest := [["LOOP", "ldi", "r0", "LAST"], ["LAST", ".fill", "LOOP"], [".END"]]
  have htokens : tokenize text = [".ORIG", "x3000"] :: rest := by decide +kernel
  have htokens' : tokenize text' = [".ORIG", "#65534"] :: rest := by decide +kernel
  have hd : DifferInOrigin (tokenize text) (tokenize text') 0xFFFE :=
    ⟨[], ".ORIG", "x3000", "#65534", rest, htokens, htokens', by simp, by decide, by rfl⟩
  have hp : assemble text = .ok (.success p) := by
    rw [assemble_eq_success, htokens]
    rfl
  have hl : ∀ (name : String) v, p.symbols[name]? = some v → v - p.orig + 0xFFFE ≤ 0xFFFF := by
    intro name v hv
    have hmem := SymbolTable.mem_bindings.mpr hv
    rw [show p.symbols.bindings = [("LAST", 0x3001), ("LOOP", 0x3000)] by decide] at hmem
    simp only [List.mem_cons, Prod.mk.injEq, List.not_mem_nil, or_false] at hmem
    rcases hmem with ⟨-, rfl⟩ | ⟨-, rfl⟩ <;> decide
  refine ⟨hd, hp, by decide, hl, ?_⟩
  obtain ⟨q, o, body, hq, ho, hb, hmoved⟩ :=
    relocated_of_assemble hd (by decide) hp (by decide) hl
  let load : Statement := ⟨2, some "LOOP", some ⟨"ldi", ["r0", "LAST"]⟩⟩
  let fill : Statement := ⟨3, some "LAST", some ⟨".fill", ["LOOP"]⟩⟩
  have ho' : findOrigin (tokenize text') = .ok ⟨0xFFFE, 1⟩ := by
    rw [htokens']
    rfl
  have hb' : bodyFrom (tokenize text') 1 = .ok ⟨[load, fill], true⟩ := by
    rw [htokens']
    rfl
  obtain rfl := Except.ok.inj (ho.symm.trans ho')
  obtain rfl := Except.ok.inj (hb.symm.trans hb')
  refine ⟨q, hq, ?_, ?_⟩
  · rw [hmoved.symbols]
    decide
  · exact hmoved.address 1 0x3000 rfl ⟨[load], fill, [], _, rfl, by decide, rfl, rfl⟩

end Assembly

end LC3
