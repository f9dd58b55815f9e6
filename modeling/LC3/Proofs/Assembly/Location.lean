import LC3.Proofs.Assembly.Acceptance
import LC3.Proofs.Outcome

/-!
# Where diagnostics point

Every diagnostic names a line of its source. Two are about the source as a whole: an empty program
is reported on the first line, a missing end on the last. All others are found on a line with tokens
(`OnTokens`), since a computation that looks at one line has no such cause (`Local`), and statements
keep the numbers of their lines. Encoding reports the first statement that cannot be encoded
(`firstFailure_of_encodeAll`). `failure_points_into` takes this to the messages of texts.
-/

namespace LC3.Assembly

/-! ## Lines -/

/-- A text has one line more than it has line feeds, whether carriage returns stand before them or
not. -/
theorem length_splitLines (s : List Char) : (splitLines s).length = s.count '\n' + 1 := by
  fun_induction splitLines s with
  | case1 => rfl
  | case2 s ih | case3 s ih => simp [ih]
  | case4 c s _ _ hs ih =>
    rw [hs] at ih
    cases ih
  | case5 c s _ hlf line lines hs ih =>
    have hc : c ≠ '\n' := fun hc => hlf hc
    rw [hs] at ih
    rw [List.length_cons, List.count_cons_of_ne hc, ← ih, List.length_cons]

theorem length_tokenize (text : String) :
    (tokenize text).length = text.toList.count '\n' + 1 := by
  rw [tokenize, List.length_map, length_splitLines]

/-- If the first of the lines has the number `first`, then the line of number `line` is among them,
and it is not empty. -/
def HasTokens (first : Nat) (lines : List (List String)) (line : Nat) : Prop :=
  ∃ index tokens, line = first + index ∧ lines[index]? = some tokens ∧ tokens ≠ []

namespace HasTokens

variable {first line : Nat} {lines : List (List String)}

theorem head {token : String} {tokens : List String} :
    HasTokens first ((token :: tokens) :: lines) first :=
  ⟨0, _, rfl, rfl, List.cons_ne_nil _ _⟩

theorem tail {tokens : List String} (h : HasTokens (first + 1) lines line) :
    HasTokens first (tokens :: lines) line := by
  obtain ⟨index, ts, rfl, ht, hne⟩ := h
  exact ⟨index + 1, ts, by omega, ht, hne⟩

theorem of_drop {start : Nat} (h : HasTokens (first + start) (lines.drop start) line) :
    HasTokens first lines line := by
  obtain ⟨index, ts, rfl, ht, hne⟩ := h
  rw [List.getElem?_drop] at ht
  exact ⟨start + index, ts, by omega, ht, hne⟩

theorem bounds (h : HasTokens 1 lines line) : 1 ≤ line ∧ line ≤ lines.length := by
  obtain ⟨index, ts, rfl, ht, -⟩ := h
  obtain ⟨hlt, -⟩ := List.getElem?_eq_some_iff.mp ht
  omega

theorem getElem? (h : HasTokens 1 lines line) :
    ∃ tokens, lines[line - 1]? = some tokens ∧ tokens ≠ [] := by
  obtain ⟨index, ts, rfl, ht, hne⟩ := h
  exact ⟨ts, by rwa [Nat.add_sub_cancel_left], hne⟩

end HasTokens

/-! ## Causes that are found on a line -/

/-- The cause is found on a line; the other two are found for the source as a whole. -/
def Cause.isOnLine : Cause → Bool
  | emptyProgram | missingEnd => false
  | _ => true

theorem Cause.ne_of_isOnLine {c : Cause} (h : c.isOnLine = true) :
    c ≠ .emptyProgram ∧ c ≠ .missingEnd := by
  constructor
  · rintro rfl
    cases h
  · rintro rfl
    cases h

/-- The computation looks at one line: if it fails, the cause is found there. -/
def Local {α : Type} (x : Except Cause α) : Prop :=
  ∀ cause, x = .error cause → cause.isOnLine = true

section

variable {α β : Type} {x : Except Cause α} {operand : String} {symbols : SymbolTable}

theorem local_ok (a : α) : Local (.ok a) := by
  rintro cause ⟨⟩

theorem local_pure (a : α) : Local (pure a : Except Cause α) :=
  local_ok a

theorem local_error {cause : Cause} (h : cause.isOnLine = true) :
    Local (.error cause : Except Cause α) := by
  rintro _ ⟨⟩
  exact h

theorem local_throw {cause : Cause} (h : cause.isOnLine = true) :
    Local (throw cause : Except Cause α) :=
  local_error h

theorem local_bind_iff {f : α → Except Cause β} :
    Local (x >>= f) ↔ Local x ∧ ∀ a, x = .ok a → Local (f a) := by
  cases x <;> simp [Local, Bind.bind, Except.bind]

theorem Local.bind {f : α → Except Cause β} (hx : Local x) (hf : ∀ a, Local (f a)) :
    Local (x >>= f) :=
  local_bind_iff.mpr ⟨hx, fun a _ => hf a⟩

theorem local_ite {p : Prop} [Decidable p] {y : Except Cause α} (hx : Local x) (hy : Local y) :
    Local (if p then x else y) := by
  split
  · exact hx
  · exact hy

theorem local_orFault (x : Except Fault α) : Local (orFault x) := by
  intro cause h
  obtain ⟨f, -, rfl⟩ := orFault_eq_error.mp h
  rfl

theorem local_literal {g : Option Int → Except Cause α} (hnone : Local (g none))
    (hsome : ∀ n, Local (g (some n))) : Local (orFault (Literal.value? operand) >>= g) := by
  refine (local_orFault _).bind fun v => ?_
  cases v with
  | none => exact hnone
  | some n => exact hsome n

/-! ### Operands -/

theorem local_register : Local (register operand) := by
  unfold register
  split
  · exact local_ok _
  · exact local_error rfl

theorem local_source : Local (source operand) := by
  refine local_literal ?_ fun n => ?_
  · exact local_register.bind fun r => local_pure _
  · exact local_ite (local_pure _) (local_throw rfl)

theorem local_trapVector : Local (trapVector operand) := by
  refine local_literal ?_ fun n => ?_
  · exact local_throw rfl
  · exact local_ite (local_pure _) (local_throw rfl)

theorem local_offsetField (s : Site) (bits : Nat) : Local (s.offsetField operand bits) := by
  unfold Site.offsetField
  split
  · exact local_ok _
  · exact local_error rfl

theorem local_fillWord : Local (fillWord operand symbols) := by
  refine local_literal ?_ fun n => local_pure _
  dsimp only
  split
  · exact local_pure _
  · exact local_throw rfl

theorem local_blockCount : Local (blockCount operand) :=
  local_literal (local_throw rfl) fun n => local_pure n

theorem local_stringValue : Local (stringValue operand) := by
  unfold stringValue
  split
  · exact local_ok _
  · exact local_error rfl

theorem Reservation.local_size (r : Reservation) : Local r.size := by
  cases r with
  | word => exact local_ok _
  | text s => exact local_ok _
  | block count => exact local_ite (local_error rfl) (local_ok _)

/-! ### Commands -/

theorem Mnemonic.local_instruction (m : Mnemonic) (operands : List String) (s : Site) :
    Local (m.instruction operands s) := by
  unfold instruction
  split
  case h_19 => exact local_error rfl
  all_goals simp only [local_bind_iff, local_register, local_source, local_offsetField,
    local_trapVector, local_pure, local_ok, implies_true, and_self]

theorem Command.local_instructionWord (c : Command) (pc : Int) :
    Local (c.instructionWord pc symbols) := by
  refine Local.bind ?_ fun i => local_pure _
  unfold instruction
  split
  · exact local_error rfl
  · exact Mnemonic.local_instruction _ _ _

theorem Directive.local_words (d : Directive) : Local (d.words operand symbols) := by
  cases d with
  | fill => exact local_fillWord.bind fun w => local_pure _
  | blkw =>
    refine local_blockCount.bind fun count => ?_
    exact (Reservation.local_size _).bind fun n => local_pure _
  | stringz => exact local_stringValue.bind fun s => local_pure _

theorem Command.local_words (c : Command) (a : Int) : Local (c.words symbols a) := by
  unfold words
  split
  · unfold directiveWords
    split
    · exact local_error rfl
    · split
      · exact Directive.local_words _
      · exact local_error rfl
  · exact (c.local_instructionWord _).bind fun w => local_pure _

theorem Directive.local_reservation (d : Directive) : Local (d.reservation operand) := by
  cases d with
  | fill => exact local_ok _
  | blkw => exact local_blockCount.bind fun count => local_pure _
  | stringz => exact local_stringValue.bind fun s => local_pure _

theorem Command.local_reservation (c : Command) : Local c.reservation := by
  unfold reservation
  split
  · split
    · exact local_error rfl
    · split
      · exact Directive.local_reservation _
      · exact local_error rfl
  · exact local_ok _

end

/-! ### Statements -/

namespace Statement

variable (s : Statement) (symbols : SymbolTable) (a : Int)

theorem local_words : Local (s.words symbols a) := by
  unfold words
  split
  · exact local_ok _
  · exact Command.local_words _ a

theorem local_bind : Local (s.bind symbols a) := by
  unfold bind
  split
  · exact local_ok _
  · unfold bindLabel
    split
    · exact local_error rfl
    · split
      · exact local_ok _
      · split
        · exact local_ok _
        · exact local_error rfl

theorem local_size : Local s.size := by
  unfold size
  split
  · exact local_ok _
  · exact (Command.local_reservation _).bind fun r => r.local_size

theorem local_place : Local (s.place symbols a) := by
  refine (s.local_bind symbols a).bind fun t => s.local_size.bind fun n => ?_
  exact local_ite (local_throw rfl) (local_pure _)

end Statement

theorem local_originAddress (line : List String) : Local (originAddress line) := by
  unfold originAddress
  split
  · exact local_error rfl
  · refine local_ite (local_throw rfl) ?_
    refine local_ite (local_throw rfl) ?_
    dsimp only
    split
    · refine local_literal (local_throw rfl) fun n => ?_
      exact local_ite (local_pure _) (local_throw rfl)
    · exact local_throw rfl

/-! ## Diagnostics on lines with tokens -/

/-- The diagnostic is about a line with tokens, and its cause was found there. The first of the
lines has the number `first`. -/
structure OnTokens (first : Nat) (lines : List (List String)) (d : Diagnostic) : Prop where
  tokens : HasTokens first lines d.line
  cause : d.cause.isOnLine = true

theorem OnTokens.tail {first : Nat} {tokens : List String} {lines : List (List String)}
    {d : Diagnostic} (h : OnTokens (first + 1) lines d) : OnTokens first (tokens :: lines) d :=
  ⟨h.tokens.tail, h.cause⟩

theorem onTokens_of_statements {line : Nat} {lines : List (List String)} {d : Diagnostic}
    (h : statements line lines = .error d) : OnTokens line lines d := by
  fun_induction statements line lines with
  | case1 | case3 | case6 => cases h
  | case2 line lines ih => exact (ih h).tail
  | case4 line first rest lines _ _ ih | case7 line first rest lines _ _ _ _ command _ ih =>
    rcases bind_eq_error.mp h with h | ⟨b, -, h⟩
    · exact (ih h).tail
    · exact absurd h pure_ne_error
  | case5 | case8 =>
    cases h
    exact ⟨.head, rfl⟩

theorem hasTokens_of_mem_statements {line : Nat} {lines : List (List String)} {body : Body}
    (h : statements line lines = .ok body) {s : Statement} (hs : s ∈ body.statements) :
    HasTokens line lines s.line := by
  fun_induction statements line lines generalizing body with
  | case1 | case3 =>
    cases h
    cases hs
  | case2 line lines ih => exact (ih h hs).tail
  | case4 line first rest lines _ _ ih | case7 line first rest lines _ _ _ _ command _ ih =>
    obtain ⟨b, hb, hcons⟩ := bind_eq_ok.mp h
    obtain rfl := pure_eq_ok.mp hcons
    rcases List.mem_cons.mp hs with rfl | hs
    · exact .head
    · exact (ih hb hs).tail
  | case5 | case8 => cases h
  | case6 =>
    cases h
    obtain rfl := List.mem_singleton.mp hs
    exact .head

theorem placeAll_eq_error {ss : List Statement} {symbols : SymbolTable} {a : Int} {d : Diagnostic}
    (h : placeAll symbols a ss = .error d) :
    ∃ s ∈ ss, s.line = d.line ∧ d.cause.isOnLine = true := by
  induction ss generalizing symbols a with
  | nil => cases h
  | cons s rest ih =>
    rcases bind_eq_error.mp h with h | ⟨⟨t, next⟩, -, h⟩
    · obtain ⟨cause, hc, rfl⟩ := atLine_eq_error.mp h
      exact ⟨s, List.mem_cons_self, rfl, s.local_place symbols a cause hc⟩
    · obtain ⟨s', hs', hd⟩ := ih h
      exact ⟨s', List.mem_cons_of_mem s hs', hd⟩

/-! ## The first failure -/

/-- The diagnostic is that of the first statement that cannot be encoded: every statement before it
can, at the address where it was laid out. -/
def FirstFailure (symbols : SymbolTable) (orig : Int) (ss : List Statement) (d : Diagnostic) :
    Prop :=
  ∃ before s after, ss = before ++ s :: after ∧ s.line = d.line ∧
    s.words symbols (orig + extent before) = .error d.cause ∧
      ∀ pre t post, before = pre ++ t :: post →
        ∃ ws, t.words symbols (orig + extent pre) = .ok ws

theorem firstFailure_of_encodeAll {ss : List Statement} {symbols : SymbolTable} {orig : Int}
    {d : Diagnostic} (hsize : ∀ s ∈ ss, s.size = .ok s.extent)
    (h : encodeAll symbols orig ss = .error d) : FirstFailure symbols orig ss d := by
  obtain ⟨before, s, after, us, rfl, hl, hu, hw⟩ := exists_failure_of_encodeAll h
  have hlen : us.length = extent before :=
    length_encodeAll (fun t ht => hsize t (by simp [ht])) hu
  refine ⟨before, s, after, rfl, hl, by rwa [← hlen], ?_⟩
  rintro pre t post rfl
  obtain ⟨vs, ws, hv, hrest, -⟩ := encodeAll_append hu
  obtain ⟨ts, -, ht, -, -⟩ := encodeAll_cons_eq_ok.mp hrest
  have hpre : vs.length = extent pre :=
    length_encodeAll (fun t' ht' => hsize t' (by simp [ht'])) hv
  rw [hpre] at ht
  exact ⟨ts, ht⟩

/-! ## Sources -/

variable {lines : List (List String)} {d : Diagnostic}

theorem findOrigin_eq_error (h : findOrigin lines = .error d) :
    d = ⟨1, .emptyProgram⟩ ∨ OnTokens 1 lines d := by
  rcases findOrigin_cases lines with ho | ⟨blank, line, rest, rfl, hblank, hne⟩
  · exact .inl (Except.error.inj (h.symm.trans ho))
  · rw [findOrigin_behind hblank hne] at h
    rcases bind_eq_error.mp h with h | ⟨a, -, h⟩
    · obtain ⟨cause, hc, rfl⟩ := atLine_eq_error.mp h
      refine .inr ⟨⟨blank.length, line, Nat.add_comm _ _, by simp, hne⟩, ?_⟩
      exact local_originAddress line cause hc
    · exact absurd h pure_ne_error

theorem onTokens_of_bodyFrom {start : Nat} (h : bodyFrom lines start = .error d) :
    OnTokens 1 lines d := by
  rw [bodyFrom, Nat.add_comm] at h
  have ht := onTokens_of_statements h
  exact ⟨ht.tokens.of_drop, ht.cause⟩

theorem hasTokens_of_mem_body {start : Nat} {body : Body} (h : bodyFrom lines start = .ok body)
    {s : Statement} (hs : s ∈ body.statements) : HasTokens 1 lines s.line := by
  rw [bodyFrom, Nat.add_comm] at h
  exact (hasTokens_of_mem_statements h hs).of_drop

theorem layout_eq_error {orig : Int} {start : Nat} (h : layout lines orig start = .error d) :
    d = ⟨lastLine lines, .missingEnd⟩ ∨ OnTokens 1 lines d := by
  rcases bind_eq_error.mp h with h | ⟨body, hb, h⟩
  · exact .inr (onTokens_of_bodyFrom h)
  · rcases bind_eq_error.mp h with h | ⟨⟨symbols, stop⟩, -, h⟩
    · obtain ⟨s, hs, hl, hc⟩ := placeAll_eq_error h
      exact .inr ⟨hl ▸ hasTokens_of_mem_body hb hs, hc⟩
    · dsimp only at h
      split at h
      · exact .inl (Except.error.inj h).symm
      · exact absurd h pure_ne_error

/-- What is laid out has its end, so that encoding fails at a statement only. -/
theorem machineCode_eq_error {orig : Int} {start : Nat} {l : Layout}
    (hl : layout lines orig start = .ok l)
    (h : machineCode lines l.symbols orig start = .error d) :
    OnTokens 1 lines d ∧ ∃ body, bodyFrom lines start = .ok body ∧
      FirstFailure l.symbols orig body.statements d := by
  obtain ⟨body, hb, he, hp⟩ := layout_eq_ok hl
  rw [machineCode_eq hb he] at h
  have hfirst := firstFailure_of_encodeAll (placeAll_eq_ok hp).2 h
  refine ⟨?_, body, hb, hfirst⟩
  obtain ⟨before, s, after, hss, hline, hw, -⟩ := hfirst
  refine ⟨hline ▸ hasTokens_of_mem_body hb (by simp [hss]), ?_⟩
  exact s.local_words _ _ _ hw

/-- Where the diagnostic of a source points. -/
structure Diagnostic.PointsInto (d : Diagnostic) (text : String) : Prop where
  /-- The line is one of the text. -/
  line : 1 ≤ d.line ∧ d.line ≤ text.toList.count '\n' + 1
  /-- The line has tokens, unless the diagnostic is about the source as a whole. -/
  tokens : d.cause ≠ .emptyProgram → d.cause ≠ .missingEnd →
    ∃ tokens, (tokenize text)[d.line - 1]? = some tokens ∧ tokens ≠ []
  emptyProgram : d.cause = .emptyProgram → d.line = 1
  missingEnd : d.cause = .missingEnd → d.line = text.toList.count '\n' + 1
  /-- If the text could be laid out, the line is the first that cannot be encoded. -/
  encoding : ∀ o l, findOrigin (tokenize text) = .ok o →
    layout (tokenize text) o.address o.start = .ok l →
      ∃ body, bodyFrom (tokenize text) o.start = .ok body ∧
        FirstFailure l.symbols o.address body.statements d

theorem program_eq_error (h : program lines = .error d) :
    (d = ⟨1, .emptyProgram⟩ ∨ d = ⟨lastLine lines, .missingEnd⟩ ∨ OnTokens 1 lines d) ∧
      ∀ o l, findOrigin lines = .ok o → layout lines o.address o.start = .ok l →
        ∃ body, bodyFrom lines o.start = .ok body ∧
          FirstFailure l.symbols o.address body.statements d := by
  rcases bind_eq_error.mp h with h | ⟨o, ho, h⟩
  · refine ⟨(findOrigin_eq_error h).imp_right .inr, fun o _ ho => ?_⟩
    rw [h] at ho
    cases ho
  rcases bind_eq_error.mp h with h | ⟨l, hl, h⟩
  · refine ⟨.inr (layout_eq_error h), fun o' _ ho' hl => ?_⟩
    obtain rfl := Except.ok.inj (ho.symm.trans ho')
    rw [h] at hl
    cases hl
  rcases bind_eq_error.mp h with h | ⟨code, -, h⟩
  · obtain ⟨ht, hfirst⟩ := machineCode_eq_error hl h
    refine ⟨.inr (.inr ht), fun o' l' ho' hl' => ?_⟩
    obtain rfl := Except.ok.inj (ho.symm.trans ho')
    obtain rfl := Except.ok.inj (hl.symm.trans hl')
    exact hfirst
  · exact absurd h pure_ne_error

theorem pointsInto_of_program {text : String} (h : program (tokenize text) = .error d) :
    d.PointsInto text := by
  have hlast : lastLine (tokenize text) = text.toList.count '\n' + 1 := by
    rw [lastLine, length_tokenize]
    omega
  obtain ⟨hd, hencoding⟩ := program_eq_error h
  rcases hd with rfl | rfl | ht
  · refine ⟨?_, fun hne => absurd rfl hne, fun _ => rfl, fun hc => ?_, hencoding⟩
    · exact ⟨Nat.le_refl 1, Nat.le_add_left 1 _⟩
    · cases hc
  · rw [hlast] at hencoding ⊢
    refine ⟨?_, fun _ hne => absurd rfl hne, fun hc => ?_, fun _ => rfl, hencoding⟩
    · exact ⟨Nat.le_add_left 1 _, Nat.le_refl _⟩
    · cases hc
  · obtain ⟨hempty, hend⟩ := d.cause.ne_of_isOnLine ht.cause
    refine ⟨?_, fun _ _ => ht.tokens.getElem?, fun hc => absurd hc hempty,
      fun hc => absurd hc hend, hencoding⟩
    rw [← length_tokenize]
    exact ht.tokens.bounds

/-- A text is assembled, or there is a message `Line N: …`. The line `N` is one of the text, it has
tokens unless the text is empty or lacks its end, and if the text could be laid out, it is the first
line that cannot be encoded. The message is raised with the same number, which has few enough digits
to be read back in every text of less than `10 ^ maxDigits` lines. -/
theorem failure_points_into {text : String} (h : Numeral.ShortRuns text.toList) :
    ∃ o, assemble text = .ok o ∧ ∀ s, o = .failure s →
      ∃ d rest, program (tokenize text) = .error d ∧ d.cause.message = .ok rest ∧
        s = s!"Line {d.line}: " ++ rest ∧ d.PointsInto text ∧
          (d.line < 10 ^ maxDigits →
            (Outcome.failure s).unwrap = .error (.diagnostic s (some d.line))) := by
  obtain ⟨o, ho⟩ := exists_outcome h
  refine ⟨o, ho, ?_⟩
  rintro s rfl
  unfold assemble at ho
  split at ho
  · cases ho
  · rename_i d hd
    obtain ⟨message, hm, hs⟩ := bind_eq_ok.mp ho
    cases pure_eq_ok.mp hs
    obtain ⟨rest, hr, hmessage⟩ := bind_eq_ok.mp hm
    obtain rfl := pure_eq_ok.mp hmessage
    exact ⟨d, rest, hd, hr, rfl, pointsInto_of_program hd, fun hl => Outcome.unwrap_line hl rest⟩

/-- A label that is not there, behind lines without tokens and a line with a label only. -/
theorem failure_points_into_unknownLabel :
    let text := "; start\r\n\n.ORIG x3000\nA\nADD R0, R0, #1\nLD R1, B\nLD R1, C\n.END"
    Numeral.ShortRuns text.toList ∧ ∃ s, assemble text = .ok (.failure s) ∧
      (∃ d, program (tokenize text) = .error d ∧ d.PointsInto text) ∧
        (Outcome.failure s).unwrap = .error (.diagnostic s (some 6)) := by
  intro text
  have hruns : Numeral.ShortRuns text.toList := Numeral.shortRuns_of_length (by decide)
  have hprogram : (program (tokenize text)).map (fun _ => ()) =
      .error ⟨6, .offset "LD" (.unknownLabel "B")⟩ := by decide +kernel
  obtain ⟨o, ho, hfailure⟩ := failure_points_into hruns
  cases o with
  | success p =>
    rw [assemble_eq_success.mp ho] at hprogram
    cases hprogram
  | failure s =>
    obtain ⟨d, rest, hd, -, -, hpoints, hunwrap⟩ := hfailure s rfl
    rw [hd] at hprogram
    cases hprogram
    refine ⟨hruns, s, ho, ⟨_, hd, hpoints⟩, hunwrap ?_⟩
    exact Numeral.lt_maxDigits (n := 6) (by decide)

end LC3.Assembly
