import LC3.Assembly.Encoding
import LC3.Proofs.Assembly.Placement

/-!
# Emission

How the words of statements relate to the memory that was laid out for them. A statement emits
exactly as many words as its size says (`Statement.length_words`), and once it has a size it can
only fail to emit them as an instruction, or as a `.FILL` of something unknown
(`Statement.words_eq_error`). `layout_agreement` puts both passes together.
-/

namespace LC3.Assembly

/-! ## One command -/

theorem length_stringWords (s : String) : (stringWords s).length = s.length + 1 := by
  rw [stringWords, List.length_append, List.length_map, String.length_toList, List.length_singleton]

/-- A `.FILL` whose operand cannot be encoded: it is neither a literal nor a bound label, or it is a
numeral that is too long to be read, which is a fault. -/
def Command.FillFails (c : Command) (symbols : SymbolTable) (cause : Cause) : Prop :=
  Text.upper c.name = ".FILL" ∧ ∃ operand, c.operands = [operand] ∧
    (Literal.value? operand = .ok none ∧ symbols[operand]? = none ∨
      ∃ f, Literal.value? operand = .error f ∧ cause = .fault f)

theorem Directive.name_of_ofName? {s : String} {d : Directive} (h : ofName? s = some d) :
    d.name = s := by
  simpa using List.find?_some h

theorem fillWord_eq_error {operand : String} {symbols : SymbolTable} {cause : Cause}
    (h : fillWord operand symbols = .error cause) :
    Literal.value? operand = .ok none ∧ symbols[operand]? = none ∨
      ∃ f, Literal.value? operand = .error f ∧ cause = .fault f := by
  simp only [fillWord, bind_eq_error, orFault_eq_error, orFault_eq_ok] at h
  rcases h with ⟨f, hf, rfl⟩ | ⟨v, hv, h⟩
  · exact .inr ⟨f, hf, rfl⟩
  · cases v with
    | some n => exact absurd h pure_ne_error
    | none =>
      simp only at h
      split at h
      · exact absurd h pure_ne_error
      · rename_i hs
        exact .inl ⟨hv, hs⟩

/-- The words of a directive whose memory is known: as many as were laid out, or the failure of a
`.FILL`. -/
theorem Command.directiveWords_cases {c : Command} {r : Reservation} {n : Nat}
    (symbols : SymbolTable) (hd : c.isDirective = true) (hr : c.reservation = .ok r)
    (hn : r.size = .ok n) :
    (∃ ws, c.directiveWords symbols = .ok ws ∧ ws.length = n) ∨
      ∃ cause, c.directiveWords symbols = .error cause ∧ c.FillFails symbols cause := by
  unfold reservation at hr
  rw [if_pos hd] at hr
  unfold directiveWords
  cases hname : Directive.ofName? (Text.upper c.name) with
  | none =>
    rw [hname] at hr
    cases hr
  | some d =>
    simp only [hname] at hr
    dsimp only
    rcases ho : c.operands with _ | ⟨operand, _ | ⟨second, rest⟩⟩
    · rw [ho] at hr
      cases hr
    · simp only [ho] at hr
      dsimp only
      cases d with
      | fill =>
        cases hr
        cases hn
        simp only [Directive.words]
        cases hf : fillWord operand symbols with
        | ok w => exact .inl ⟨[w], rfl, rfl⟩
        | error cause =>
          exact .inr ⟨cause, rfl, (Directive.name_of_ofName? hname).symm, operand, ho,
            fillWord_eq_error hf⟩
      | blkw =>
        simp only [Directive.reservation, bind_eq_ok, pure_eq_ok] at hr
        obtain ⟨count, hc, rfl⟩ := hr
        refine .inl ⟨List.replicate n 0, ?_, by simp⟩
        simp only [Directive.words, bind_eq_ok]
        exact ⟨count, hc, n, hn, rfl⟩
      | stringz =>
        simp only [Directive.reservation, bind_eq_ok, pure_eq_ok] at hr
        obtain ⟨s, hs, rfl⟩ := hr
        cases hn
        refine .inl ⟨stringWords s, ?_, length_stringWords s⟩
        simp only [Directive.words, bind_eq_ok]
        exact ⟨s, hs, rfl⟩
    · rw [ho] at hr
      cases hr

/-! ## Statements -/

theorem Statement.length_words {s : Statement} {symbols : SymbolTable} {address : Int} {n : Nat}
    {ws : List Word} (hn : s.size = .ok n) (hw : s.words symbols address = .ok ws) :
    ws.length = n := by
  unfold size at hn
  unfold words at hw
  cases hc : s.command with
  | none =>
    rw [hc] at hn hw
    cases hn
    cases hw
    rfl
  | some c =>
    simp only [hc, bind_eq_ok] at hn hw
    obtain ⟨r, hr, hn⟩ := hn
    unfold Command.words at hw
    split at hw
    · rename_i hd
      rcases c.directiveWords_cases symbols hd hr hn with ⟨ws', hws, hl⟩ | ⟨cause, he, -⟩
      · rw [hws] at hw
        cases hw
        exact hl
      · rw [he] at hw
        cases hw
    · rename_i hd
      unfold Command.reservation at hr
      rw [if_neg hd] at hr
      cases hr
      cases hn
      simp only [bind_eq_ok, pure_eq_ok] at hw
      obtain ⟨w, -, rfl⟩ := hw
      rfl

theorem Statement.words_eq_error {s : Statement} {symbols : SymbolTable} {address : Int} {n : Nat}
    {cause : Cause} (hn : s.size = .ok n) (hw : s.words symbols address = .error cause) :
    ∃ c, s.command = some c ∧ (c.isDirective = false ∨ c.FillFails symbols cause) := by
  unfold size at hn
  unfold words at hw
  cases hc : s.command with
  | none =>
    rw [hc] at hw
    cases hw
  | some c =>
    simp only [hc, bind_eq_ok] at hn hw
    obtain ⟨r, hr, hn⟩ := hn
    refine ⟨c, rfl, ?_⟩
    unfold Command.words at hw
    split at hw
    · rename_i hd
      rcases c.directiveWords_cases symbols hd hr hn with ⟨ws, hws, -⟩ | ⟨cause', he, hf⟩
      · rw [hws] at hw
        cases hw
      · rw [he] at hw
        cases hw
        exact .inr hf
    · rename_i hd
      exact .inl (by simpa using hd)

theorem encodeAll_cons_eq_ok {s : Statement} {rest : List Statement} {symbols : SymbolTable}
    {address : Int} {ws : List Word} :
    encodeAll symbols address (s :: rest) = .ok ws ↔
      ∃ us vs, s.words symbols address = .ok us ∧
        encodeAll symbols (address + us.length) rest = .ok vs ∧ us ++ vs = ws := by
  simp only [encodeAll, bind_eq_ok, atLine_eq_ok, pure_eq_ok]
  constructor
  · rintro ⟨us, hu, vs, hv, rfl⟩
    exact ⟨us, vs, hu, hv, rfl⟩
  · rintro ⟨us, vs, hu, hv, rfl⟩
    exact ⟨us, hu, vs, hv, rfl⟩

theorem length_encodeAll {ss : List Statement} {symbols : SymbolTable} {address : Int}
    {ws : List Word} (hs : ∀ s ∈ ss, s.size = .ok s.extent)
    (hw : encodeAll symbols address ss = .ok ws) : ws.length = extent ss := by
  induction ss generalizing address ws with
  | nil =>
    cases hw
    rfl
  | cons s rest ih =>
    obtain ⟨us, vs, hu, hv, rfl⟩ := encodeAll_cons_eq_ok.mp hw
    have h1 := s.length_words (hs s (by simp)) hu
    have h2 := ih (fun s' h' => hs s' (by simp [h'])) hv
    rw [List.length_append, extent_cons, h1, h2]

theorem encodeAll_append {pre post : List Statement} {symbols : SymbolTable} {address : Int}
    {ws : List Word} (hw : encodeAll symbols address (pre ++ post) = .ok ws) :
    ∃ us vs, encodeAll symbols address pre = .ok us ∧
      encodeAll symbols (address + us.length) post = .ok vs ∧ ws = us ++ vs := by
  induction pre generalizing address ws with
  | nil => exact ⟨[], ws, rfl, by simpa using hw, rfl⟩
  | cons s pre ih =>
    obtain ⟨us, ws', hu, hv, rfl⟩ := encodeAll_cons_eq_ok.mp hw
    obtain ⟨us', vs, hu', hv', rfl⟩ := ih hv
    refine ⟨us ++ us', vs, encodeAll_cons_eq_ok.mpr ⟨us, us', hu, hu', rfl⟩, ?_, by simp⟩
    rw [List.length_append, Int.natCast_add, ← Int.add_assoc]
    exact hv'

/-- The first statement that fails gives the diagnostic; those before it are encoded. -/
theorem exists_failure_of_encodeAll {ss : List Statement} {symbols : SymbolTable} {address : Int}
    {d : Diagnostic} (h : encodeAll symbols address ss = .error d) :
    ∃ before s after us, ss = before ++ s :: after ∧ s.line = d.line ∧
      encodeAll symbols address before = .ok us ∧
        s.words symbols (address + us.length) = .error d.cause := by
  induction ss generalizing address with
  | nil => cases h
  | cons s rest ih =>
    simp only [encodeAll, bind_eq_error, atLine_eq_error, atLine_eq_ok] at h
    rcases h with ⟨cause, hc, rfl⟩ | ⟨us, hu, h | ⟨vs, -, h⟩⟩
    · refine ⟨[], s, rest, [], rfl, rfl, rfl, ?_⟩
      rwa [List.length_nil, Int.natCast_zero, Int.add_zero]
    · obtain ⟨before, s', after, vs, rfl, hl, hv, hw⟩ := ih h
      refine ⟨s :: before, s', after, us ++ vs, rfl, hl, ?_, ?_⟩
      · exact encodeAll_cons_eq_ok.mpr ⟨us, vs, hu, hv, rfl⟩
      · rwa [List.length_append, Int.natCast_add, ← Int.add_assoc]
    · exact absurd h pure_ne_error

theorem encodeAll_eq_error {ss : List Statement} {symbols : SymbolTable} {address : Int}
    {d : Diagnostic} (h : encodeAll symbols address ss = .error d) :
    ∃ s ∈ ss, ∃ address', s.words symbols address' = .error d.cause ∧ s.line = d.line := by
  obtain ⟨before, s, after, us, rfl, hl, -, hw⟩ := exists_failure_of_encodeAll h
  exact ⟨s, by simp, _, hw, hl⟩

/-! ## Both passes -/

theorem layout_eq_ok {lines : List (List String)} {orig : Int} {start : Nat} {l : Layout}
    (h : layout lines orig start = .ok l) :
    ∃ body, bodyFrom lines start = .ok body ∧ body.ended = true ∧
      placeAll ∅ orig body.statements = .ok (l.symbols, orig + l.length) := by
  simp only [layout, bind_eq_ok, Prod.exists] at h
  obtain ⟨body, hb, symbols, stop, hp, h⟩ := h
  split at h
  · exact absurd h throw_ne_ok
  · rename_i hended
    obtain rfl := pure_eq_ok.mp h
    exact ⟨body, hb, by simpa using hended, by rw [hp]; congr 2; simp only; omega⟩

theorem machineCode_eq {lines : List (List String)} {symbols : SymbolTable} {orig : Int}
    {start : Nat} {body : Body} (hb : bodyFrom lines start = .ok body) (he : body.ended = true) :
    machineCode lines symbols orig start = encodeAll symbols orig body.statements := by
  unfold machineCode
  rw [hb]
  cases h : encodeAll symbols orig body.statements <;>
    simp [bind, Except.bind, he, h, pure, Except.pure]

/-- What encoding has to do with a layout of the same statements. -/
structure Agreement (lines : List (List String)) (orig : Int) (start : Nat) (l : Layout)
    (body : Body) : Prop where
  /-- Encoding fails only at an instruction, or at a `.FILL` of something unknown. -/
  failure : ∀ d, machineCode lines l.symbols orig start = .error d →
    ∃ s ∈ body.statements, ∃ c, s.line = d.line ∧ s.command = some c ∧
      (c.isDirective = false ∨ c.FillFails l.symbols d.cause)
  /-- As many words are emitted as were laid out. -/
  length : ∀ ws, machineCode lines l.symbols orig start = .ok ws → (ws.length : Int) = l.length
  /-- The symbols are the labels of the statements. -/
  keys : ∀ name, name ∈ l.symbols ↔ ∃ s ∈ body.statements, s.label = some name
  /-- A label is bound to the address where the words of the statements before it end. -/
  labels : ∀ ws, machineCode lines l.symbols orig start = .ok ws →
    ∀ before s after name, body.statements = before ++ s :: after → s.label = some name →
      ∃ us, encodeAll l.symbols orig before = .ok us ∧ us <+: ws ∧
        l.symbols[name]? = some (orig + us.length)

/-- Laying out and encoding agree on every source that can be laid out. -/
theorem layout_agreement {lines : List (List String)} {orig : Int} {start : Nat} {l : Layout}
    (h : layout lines orig start = .ok l) :
    ∃ body, bodyFrom lines start = .ok body ∧ Agreement lines orig start l body := by
  obtain ⟨body, hb, he, hp⟩ := layout_eq_ok h
  obtain ⟨hstop, hsizes⟩ := placeAll_eq_ok hp
  have hcode : machineCode lines l.symbols orig start = encodeAll l.symbols orig body.statements :=
    machineCode_eq hb he
  refine ⟨body, hb, ⟨?_, ?_, ?_, ?_⟩⟩
  · intro d hd
    rw [hcode] at hd
    obtain ⟨s, hs, address, hw, hl⟩ := encodeAll_eq_error hd
    obtain ⟨c, hc, hc'⟩ := s.words_eq_error (hsizes s hs) hw
    exact ⟨s, hs, c, hl, hc, hc'⟩
  · intro ws hws
    rw [hcode] at hws
    rw [length_encodeAll hsizes hws]
    omega
  · intro name
    rw [Std.ExtTreeMap.mem_iff_isSome_getElem?, Option.isSome_iff_exists]
    simp only [getElem?_placeAll hp, LabelAt]
    constructor
    · rintro ⟨v, hv | ⟨n, ⟨pre, s, post, hss, hl, -⟩, -⟩⟩
      · simp at hv
      · exact ⟨s, by simp [hss], hl⟩
    · rintro ⟨s, hs, hl⟩
      obtain ⟨pre, post, hss⟩ := List.append_of_mem hs
      exact ⟨_, .inr ⟨_, ⟨pre, s, post, hss, hl, rfl⟩, rfl⟩⟩
  · intro ws hws before s after name hss hl
    rw [hcode, hss] at hws
    obtain ⟨us, vs, hu, -, rfl⟩ := encodeAll_append hws
    have hlen := length_encodeAll (fun s' hs' => hsizes s' (by simp [hss, hs'])) hu
    refine ⟨us, hu, List.prefix_append us vs, ?_⟩
    rw [getElem?_placeAll hp]
    exact .inr ⟨_, ⟨before, s, after, hss, hl, rfl⟩, by rw [hlen]⟩

/-- A string with an escape, an alias and a label behind them. -/
theorem layout_agreement_alias :
    let lines := [[".ORIG", "x3000"], ["A", ".STRINGZ", "\"a\\n\""], ["B"], ["C", "BRn", "A"],
      [".FILL", "B"], [".END"]]
    let l : Layout := ⟨SymbolTable.ofList [("A", 0x3000), ("B", 0x3003), ("C", 0x3003)], 5⟩
    layout lines 0x3000 1 = .ok l ∧
      ∃ body, bodyFrom lines 1 = .ok body ∧ Agreement lines 0x3000 1 l body :=
  ⟨by rfl, layout_agreement (by rfl)⟩

end LC3.Assembly
