import LC3.Proofs.Assembly.Token
import LC3.Proofs.Assembly.Wording

/-!
# Sources without an outcome

The first diagnostic ends assembling, so only one numeral of a source can leave it without an
outcome: the operand of `.ORIG`, the count of the first block that cannot be laid out
(`faults_placeAll`), or the number of the first command that cannot be encoded (`faults_encodeAll`).
`assemble_eq_error_iff` puts the stages together.
-/

namespace LC3.Assembly

variable {f : Fault}

/-! ## Statements -/

theorem Statement.not_faults_bind {s : Statement} {symbols : SymbolTable} {a : Int} :
    ¬Faults Cause.message (s.bind symbols a) f := by
  unfold bind
  split
  · exact not_faults_ok _
  · unfold bindLabel
    split
    · exact not_faults_error rfl
    · split
      · exact not_faults_ok _
      · split
        · exact not_faults_ok _
        · exact not_faults_error rfl

theorem Statement.faults_size {s : Statement} :
    Faults Cause.message s.size f ↔ ∃ c, s.command = some c ∧ c.LayoutFault f := by
  unfold size
  split
  · rename_i hc
    simp [hc, not_faults_ok]
  · rename_i c hc
    rw [faults_reservation, hc]
    simp

theorem Statement.faults_place {s : Statement} {symbols : SymbolTable} {a : Int} :
    Faults Cause.message (s.place symbols a) f ↔
      (∃ t, s.bind symbols a = .ok t) ∧ ∃ c, s.command = some c ∧ c.LayoutFault f := by
  have hrest (t : SymbolTable) (next : Int) : ¬Faults Cause.message (do
      if memorySize < next then throw (.pastMemory next)
      return (t, next) : Except Cause (SymbolTable × Int)) f := by
    split
    · exact not_faults_error rfl
    · exact not_faults_ok (t, next)
  unfold place
  simp only [faults_bind (x := s.bind symbols a), not_faults_bind, false_or,
    faults_bind (x := s.size), faults_size]
  constructor
  · rintro ⟨t, ht, h | ⟨n, -, h⟩⟩
    · exact ⟨⟨t, ht⟩, h⟩
    · exact absurd h (hrest t _)
  · rintro ⟨⟨t, ht⟩, h⟩
    exact ⟨t, ht, .inl h⟩

theorem Statement.faults_words {s : Statement} {symbols : SymbolTable} {a : Int} {n : Nat}
    (hn : s.size = .ok n) (hs : InMemory symbols (a + 1)) :
    Faults Cause.message (s.words symbols a) f ↔ ∃ c, s.command = some c ∧ c.EncodingFault f := by
  unfold size at hn
  unfold words
  cases hc : s.command with
  | none => simp [not_faults_ok]
  | some c =>
    rw [hc] at hn
    simp [Assembly.faults_words hn hs]

/-- Laying out ends at the first statement that cannot be laid out; that is a block at fault. -/
theorem faults_placeAll {ss : List Statement} {symbols : SymbolTable} {a : Int} :
    Faults Diagnostic.message (placeAll symbols a ss) f ↔
      ∃ before s after t b, ss = before ++ s :: after ∧
        placeAll symbols a before = .ok (t, b) ∧ (∃ u, s.bind t b = .ok u) ∧
          ∃ c, s.command = some c ∧ c.LayoutFault f := by
  induction ss generalizing symbols a with
  | nil => simp [placeAll, not_faults_ok]
  | cons s ss ih =>
    rw [placeAll, faults_bind, faults_atLine, s.faults_place]
    simp only [List.cons_eq_append_iff, atLine_eq_ok, ih]
    constructor
    · rintro (⟨hb, hc⟩ | ⟨⟨t, b⟩, hp, before, s', after, u, d, rfl, hrest, h⟩)
      · exact ⟨[], s, ss, symbols, a, .inl ⟨rfl, rfl⟩, rfl, hb, hc⟩
      · refine ⟨s :: before, s', after, u, d, .inr ⟨before, rfl, rfl⟩, ?_, h⟩
        rw [placeAll, bind_eq_ok]
        exact ⟨(t, b), atLine_eq_ok.mpr hp, hrest⟩
    · rintro ⟨before, s', after, u, d, ⟨rfl, h⟩ | ⟨before', rfl, rfl⟩, hp, hb, hc⟩
      · cases h
        cases hp
        exact .inl ⟨hb, hc⟩
      · rw [placeAll, bind_eq_ok] at hp
        obtain ⟨⟨t, b⟩, hp, hrest⟩ := hp
        exact .inr ⟨(t, b), atLine_eq_ok.mp hp, before', s', after, u, d, rfl, hrest, hb, hc⟩

/-- Of statements that are laid out in memory, with all labels there, encoding ends at the first
command that cannot be encoded. -/
theorem faults_encodeAll {ss : List Statement} {symbols : SymbolTable} {a : Int}
    (hsize : ∀ s ∈ ss, s.size = .ok s.extent)
    (hl : ∀ (name : String) v, symbols[name]? = some v → 0 ≤ v ∧ v < memorySize) (ha : 0 ≤ a)
    (hstop : a + extent ss ≤ memorySize) :
    Faults Diagnostic.message (encodeAll symbols a ss) f ↔
      ∃ before s after us c, ss = before ++ s :: after ∧
        encodeAll symbols a before = .ok us ∧ s.command = some c ∧ c.EncodingFault f := by
  induction ss generalizing a with
  | nil => simp [encodeAll, not_faults_ok]
  | cons s ss ih =>
    rw [extent_cons, Int.natCast_add] at hstop
    have hs := hsize s List.mem_cons_self
    have hmem : InMemory symbols (a + 1) := ⟨hl, by omega, by omega⟩
    -- Behind the words of `s`, the rest is in memory as well.
    have hrest {us : List Word} (hu : s.words symbols a = .ok us) :=
      ih (a := a + us.length) (fun s' hs' => hsize s' (List.mem_cons_of_mem s hs')) (by omega)
        (by rw [s.length_words hs hu]; omega)
    rw [encodeAll, faults_bind, faults_atLine, s.faults_words hs hmem]
    simp only [List.cons_eq_append_iff, atLine_eq_ok, faults_map]
    constructor
    · rintro (⟨c, hc, h⟩ | ⟨us, hu, h⟩)
      · exact ⟨[], s, ss, [], c, .inl ⟨rfl, rfl⟩, rfl, hc, h⟩
      · obtain ⟨before, s', after, vs, c, rfl, hb, h⟩ := (hrest hu).mp h
        exact ⟨s :: before, s', after, us ++ vs, c, .inr ⟨before, rfl, rfl⟩,
          encodeAll_cons_eq_ok.mpr ⟨us, vs, hu, hb, rfl⟩, h⟩
    · rintro ⟨before, s', after, us, c, ⟨rfl, h⟩ | ⟨before', rfl, rfl⟩, hb, hc, hf⟩
      · cases h
        exact .inl ⟨c, hc, hf⟩
      · obtain ⟨us, vs, hu, hv, rfl⟩ := encodeAll_cons_eq_ok.mp hb
        exact .inr ⟨us, hu, (hrest hu).mpr ⟨before', s', after, vs, c, rfl, hv, hc, hf⟩⟩

/-! ## Lines -/

theorem not_faults_statements (line : Nat) (lines : List (List String)) :
    ¬Faults Diagnostic.message (statements line lines) f := by
  fun_induction statements line lines with
  | case1 => exact not_faults_ok _
  | case2 _ _ ih => exact ih
  | case3 => exact not_faults_ok _
  | case4 _ _ _ _ _ _ ih => rwa [faults_map]
  | case5 => exact not_faults_error rfl
  | case6 => exact not_faults_ok _
  | case7 _ _ _ _ _ _ _ _ _ _ ih => rwa [faults_map]
  | case8 => exact not_faults_error rfl

theorem faults_originAddress {line : List String} :
    Faults Cause.message (originAddress line) f ↔ ∃ directive operand, line = [directive, operand] ∧
      Text.upper directive = ".ORIG" ∧ OperandFault operand (fun _ => False) f := by
  have hoperand {directive operand : String} (hd : Text.upper directive = ".ORIG") :
      Faults Cause.message (originAddress [directive, operand]) f ↔
        OperandFault operand (fun _ => False) f := by
    rw [originAddress_operand hd]
    refine faults_literal (not_faults_error rfl) fun n => ?_
    simp only [false_and, iff_false]
    split
    · exact not_faults_ok n
    · exact not_faults_error rfl
  constructor
  · intro h
    rcases originAddress_cases line with ⟨directive, operand, rfl, hd⟩ | ⟨cause, s, he, hm⟩
    · exact ⟨directive, operand, rfl, hd, (hoperand hd).mp h⟩
    · rw [he] at h
      exact absurd h (not_faults_error hm)
  · rintro ⟨directive, operand, rfl, hd, h⟩
    exact (hoperand hd).mpr h

theorem faults_findOrigin {lines : List (List String)} :
    Faults Diagnostic.message (findOrigin lines) f ↔ ∃ blank directive operand rest,
      lines = blank ++ [directive, operand] :: rest ∧ (∀ line ∈ blank, line = []) ∧
        Text.upper directive = ".ORIG" ∧ OperandFault operand (fun _ => False) f := by
  constructor
  · intro h
    rcases findOrigin_cases lines with ho | ⟨blank, line, rest, rfl, hb, hne⟩
    · rw [ho] at h
      exact absurd h (not_faults_error rfl)
    · rw [findOrigin_behind hb hne, faults_bind, faults_atLine, faults_originAddress] at h
      rcases h with ⟨directive, operand, rfl, hd, h⟩ | ⟨a, -, h⟩
      · exact ⟨blank, directive, operand, rest, rfl, hb, hd, h⟩
      · exact absurd h (not_faults_ok _)
  · rintro ⟨blank, directive, operand, rest, rfl, hb, hd, h⟩
    rw [findOrigin_behind hb (by simp), faults_bind, faults_atLine, faults_originAddress]
    exact .inl ⟨directive, operand, rfl, hd, h⟩

/-! ## Sources -/

/-- Assembling the lines ends without an outcome: all stages in front of a numeral succeed, and the
numeral is too long, so that it cannot be read, or a diagnostic that shows it cannot be worded. -/
inductive Raises (lines : List (List String)) (f : Fault) : Prop where
  /-- The origin. -/
  | origin {blank rest : List (List String)} {directive operand : String}
      (hl : lines = blank ++ [directive, operand] :: rest) (hblank : ∀ line ∈ blank, line = [])
      (hd : Text.upper directive = ".ORIG") (h : OperandFault operand (fun _ => False) f)
  /-- The number of words of a block, where all statements in front of it can be laid out. -/
  | layout {o : Origin} {body : Body} {before after : List Statement} {s : Statement} {c : Command}
      {symbols symbols' : SymbolTable} {a : Int} (ho : findOrigin lines = .ok o)
      (hb : bodyFrom lines o.start = .ok body) (hs : body.statements = before ++ s :: after)
      (hp : placeAll ∅ o.address before = .ok (symbols, a)) (hl : s.bind symbols a = .ok symbols')
      (hc : s.command = some c) (h : c.LayoutFault f)
  /-- The number of a command, where all of the program can be laid out, and all statements in front
  of it can be encoded. -/
  | encoding {o : Origin} {l : Layout} {body : Body} {before after : List Statement} {s : Statement}
      {c : Command} {us : List Word} (ho : findOrigin lines = .ok o)
      (hl : layout lines o.address o.start = .ok l) (hb : bodyFrom lines o.start = .ok body)
      (hs : body.statements = before ++ s :: after)
      (hu : encodeAll l.symbols o.address before = .ok us) (hc : s.command = some c)
      (h : c.EncodingFault f)

theorem operands_of_afterLabel? {rest : List String} {c : Command}
    (h : afterLabel? rest = some (some c)) : ∀ o ∈ c.operands, o ∈ rest := by
  unfold afterLabel? at h
  split at h
  · cases h
  · split at h
    · cases h
    · cases h
      exact fun o ho => List.mem_cons_of_mem _ ho

theorem operands_of_statements {lines : List (List String)} {line : Nat} {body : Body}
    (hb : statements line lines = .ok body) {s : Statement} (hs : s ∈ body.statements)
    {c : Command} (hc : s.command = some c) {operand : String} (ho : operand ∈ c.operands) :
    ∃ tokens ∈ lines, operand ∈ tokens := by
  fun_induction statements line lines generalizing body with
  | case1 | case3 =>
    cases hb
    cases hs
  | case2 line lines ih =>
    obtain ⟨tokens, ht, h⟩ := ih hb hs
    exact ⟨tokens, List.mem_cons_of_mem _ ht, h⟩
  | case4 line first rest lines _ _ ih =>
    obtain ⟨b, hb', hcons⟩ := bind_eq_ok.mp hb
    obtain rfl := pure_eq_ok.mp hcons
    rcases List.mem_cons.mp hs with rfl | hs
    · cases hc
      exact ⟨_, List.mem_cons_self, List.mem_cons_of_mem _ ho⟩
    · obtain ⟨tokens, ht, h⟩ := ih hb' hs
      exact ⟨tokens, List.mem_cons_of_mem _ ht, h⟩
  | case5 | case8 => cases hb
  | case6 =>
    cases hb
    obtain rfl := List.mem_singleton.mp hs
    cases hc
  | case7 line first rest lines _ _ _ _ command hafter ih =>
    obtain ⟨b, hb', hcons⟩ := bind_eq_ok.mp hb
    obtain rfl := pure_eq_ok.mp hcons
    rcases List.mem_cons.mp hs with rfl | hs
    · obtain rfl : command = some c := hc
      exact ⟨_, List.mem_cons_self, List.mem_cons_of_mem _ (operands_of_afterLabel? hafter _ ho)⟩
    · obtain ⟨tokens, ht, h⟩ := ih hb' hs
      exact ⟨tokens, List.mem_cons_of_mem _ ht, h⟩

theorem Command.LayoutFault.exists_operand {c : Command} (h : c.LayoutFault f) :
    ∃ operand ∈ c.operands, ∃ shown, OperandFault operand shown f := by
  obtain ⟨-, operand, ho, h⟩ := h
  exact ⟨operand, by simp [ho], _, h⟩

theorem Command.EncodingFault.exists_operand {c : Command} (h : c.EncodingFault f) :
    ∃ operand ∈ c.operands, ∃ shown, OperandFault operand shown f := by
  rcases h with ⟨-, ho, h⟩ | ⟨-, -, -, registers, last, ho, -, h⟩
  · exact ⟨_, by simp [ho], _, h⟩
  · exact ⟨last, by simp [ho], _, h⟩

theorem Raises.exists_token {lines : List (List String)} (h : Raises lines f) :
    ∃ line ∈ lines, ∃ token ∈ line, ∃ shown, OperandFault token shown f := by
  have hbody {start : Nat} {body : Body} {before after : List Statement} {s : Statement}
      {c : Command} (hb : bodyFrom lines start = .ok body)
      (hs : body.statements = before ++ s :: after) (hc : s.command = some c)
      (h : ∃ operand ∈ c.operands, ∃ shown, OperandFault operand shown f) :
      ∃ line ∈ lines, ∃ token ∈ line, ∃ shown, OperandFault token shown f := by
    obtain ⟨operand, ho, h⟩ := h
    obtain ⟨line, hl, ht⟩ := operands_of_statements hb (by simp [hs]) hc ho
    exact ⟨line, List.mem_of_mem_drop hl, operand, ht, h⟩
  cases h with
  | @origin blank rest directive operand hl _ _ h =>
    exact ⟨[directive, operand], by simp [hl], operand, by simp, _, h⟩
  | layout _ hb hs _ _ hc h => exact hbody hb hs hc h.exists_operand
  | encoding _ _ hb hs _ hc h => exact hbody hb hs hc h.exists_operand

theorem faults_layout {lines : List (List String)} {orig : Int} {start : Nat} :
    Faults Diagnostic.message (layout lines orig start) f ↔
      ∃ body, bodyFrom lines start = .ok body ∧
        Faults Diagnostic.message (placeAll ∅ orig body.statements) f := by
  unfold layout
  rw [faults_bind]
  constructor
  · rintro (h | ⟨body, hb, h⟩)
    · exact absurd h (not_faults_statements _ _)
    · rcases faults_bind.mp h with h | ⟨⟨symbols, stop⟩, -, h⟩
      · exact ⟨body, hb, h⟩
      · revert h
        simp only
        split
        · exact fun h => absurd h (not_faults_error rfl)
        · exact fun h => absurd h (not_faults_ok _)
  · rintro ⟨body, hb, h⟩
    exact .inr ⟨body, hb, faults_bind.mpr (.inl h)⟩

/-- Of a program that can be laid out, all words stand in memory, and so do all labels. -/
theorem faults_machineCode {lines : List (List String)} {o : Origin} {l : Layout} {body : Body}
    (ho : findOrigin lines = .ok o) (hl : layout lines o.address o.start = .ok l)
    (hb : bodyFrom lines o.start = .ok body) :
    Faults Diagnostic.message (machineCode lines l.symbols o.address o.start) f ↔
      ∃ before s after us c, body.statements = before ++ s :: after ∧
        encodeAll l.symbols o.address before = .ok us ∧ s.command = some c ∧ c.EncodingFault f := by
  obtain ⟨body', hb', he, hp⟩ := layout_eq_ok hl
  obtain rfl := Except.ok.inj (hb'.symm.trans hb)
  obtain ⟨-, -, -, -, -, -, -, -, -, h0, hmax⟩ := findOrigin_eq_ok.mp ho
  obtain ⟨hstop, hsize⟩ := placeAll_eq_ok hp
  obtain ⟨hm, hlabels⟩ := bounds_of_placeAll (by unfold memorySize; omega) hp
  rw [machineCode_eq hb he]
  refine faults_encodeAll hsize (fun name v hv => ?_) h0 (by omega)
  have hmem : (name, v) ∈ labelsFrom o.address body'.statements := by
    rw [getElem?_placeAll hp] at hv
    rw [mem_labelsFrom]
    simpa using hv
  obtain ⟨n, -, rfl⟩ := mem_labelsFrom.mp hmem
  exact ⟨by omega, hlabels _ hmem⟩

theorem faults_program {lines : List (List String)} :
    Faults Diagnostic.message (program lines) f ↔ Raises lines f := by
  unfold program
  rw [faults_bind, faults_findOrigin]
  constructor
  · rintro (⟨blank, directive, operand, rest, hl, hblank, hd, h⟩ | ⟨o, ho, h⟩)
    · exact .origin hl hblank hd h
    · rcases faults_bind.mp h with h | ⟨l, hl, h⟩
      · obtain ⟨body, hb, h⟩ := faults_layout.mp h
        obtain ⟨before, s, after, t, a, hs, hp, ⟨u, hu⟩, c, hc, hf⟩ := faults_placeAll.mp h
        exact .layout ho hb hs hp hu hc hf
      · rw [faults_map] at h
        obtain ⟨body, hb, -⟩ := layout_eq_ok hl
        obtain ⟨before, s, after, us, c, hs, hu, hc, hf⟩ := (faults_machineCode ho hl hb).mp h
        exact .encoding ho hl hb hs hu hc hf
  · rintro (⟨hl, hblank, hd, h⟩ | ⟨ho, hb, hs, hp, hu, hc, hf⟩ | ⟨ho, hl, hb, hs, hu, hc, hf⟩)
    · exact .inl ⟨_, _, _, _, hl, hblank, hd, h⟩
    · have h := faults_placeAll.mpr ⟨_, _, _, _, _, hs, hp, ⟨_, hu⟩, _, hc, hf⟩
      exact .inr ⟨_, ho, faults_bind.mpr (.inl (faults_layout.mpr ⟨_, hb, h⟩))⟩
    · have h := (faults_machineCode ho hl hb).mpr ⟨_, _, _, _, _, hs, hu, hc, hf⟩
      exact .inr ⟨_, ho, faults_bind.mpr (.inr ⟨_, hl, faults_map.mpr h⟩)⟩

theorem faults_assemble {text : String} :
    assemble text = .error f ↔ Faults Diagnostic.message (program (tokenize text)) f := by
  unfold assemble
  split
  · rename_i p hp
    simp [hp, not_faults_ok]
  · rename_i d hd
    rw [hd, faults_error, return_eq_error]

/-- Every text is assembled or answered with a message, unless it gets to a numeral that is too
long. -/
theorem assemble_eq_error_iff {text : String} :
    assemble text = .error f ↔ Raises (tokenize text) f := by
  rw [faults_assemble, faults_program]

/-- A literal of so many zeros. -/
def zeros (count : Nat) : String :=
  "#" ++ String.ofList (List.replicate count '0')

theorem overlong_zeros {count : Nat} (h : maxDigits < count) :
    Literal.Overlong (zeros count) count := by
  refine ⟨[], List.replicate count '0', by simp, ⟨fun c hc => ?_, List.length_replicate, h⟩,
    by simp [zeros]⟩
  rw [List.eq_of_mem_replicate hc]
  rfl

theorem shows_zeros (count : Nat) : Shows (zeros count) [zeros count] := by
  refine .plain (.append (by decide) (List.all_eq_true.mpr fun c hc => ?_))
  rw [String.toList_ofList] at hc
  rw [List.eq_of_mem_replicate hc]
  rfl

theorem tokenize_originZeros (count : Nat) :
    tokenize (".ORIG " ++ zeros count ++ "\n.END\n") = [[".ORIG", zeros count], [".END"], []] := by
  have horigin := (shows_zeros count).blank.word (t := ".ORIG") (by decide) (by simp +decide)
  have hend : Shows ".END" [".END"] := .plain (by decide)
  have htext : "\n".intercalate [".ORIG" ++ (" " ++ zeros count), ".END"] ++ "\n" =
      ".ORIG " ++ zeros count ++ "\n.END\n" := by
    rw [String.intercalate_cons_cons, String.intercalate_singleton]
    apply String.toList_injective
    simp
  rw [← htext, tokenize_lines (by simp) (.cons horigin (.cons hend .nil))]
  rfl

/-- An origin of 4301 zeros is in range, but cannot be read. -/
theorem assemble_originZeros :
    ¬∃ o, assemble (".ORIG " ++ zeros 4301 ++ "\n.END\n") = .ok o := by
  rintro ⟨o, ho⟩
  have hraises : Raises [[".ORIG", zeros 4301], [".END"], []] (.numeralTooLong 4301) :=
    .origin (List.nil_append _).symm (by simp) (by decide) (.read (overlong_zeros (by decide)))
  rw [← tokenize_originZeros, ← faults_program, ← faults_assemble, ho] at hraises
  cases hraises

end LC3.Assembly
