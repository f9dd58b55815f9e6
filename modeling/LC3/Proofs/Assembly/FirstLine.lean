import LC3.Proofs.Assembly.Location

/-!
# The first bad line

Laying out goes over the lines of a program twice: over all of them for the names that they begin
with (`statements`), and then, statement by statement, for labels, operands and the end of memory
(`placeAll`). Either walk stops at the first line that it refuses, so that the lines in front of that
line pass it when they are closed by an end (`statements_closed`, `statements_closed_of_error`). But
a line that only the second walk refuses may stand in front of one that the first walk reports
(`layout_refuses_first`).
-/

namespace LC3.Assembly

/-! ## One line -/

/-- What the walk over the lines does at a line of this number, whatever lines follow. -/
inductive LineStep (line : Nat) (tokens : List String) : Prop where
  | skip (h : ∀ lines, statements line (tokens :: lines) = statements (line + 1) lines)
  | statement (s : Statement) (hs : s.line = line)
      (h : ∀ lines, statements line (tokens :: lines) =
        (do return (← statements (line + 1) lines).cons s))
  | stop (ss : List Statement) (hs : ss.length ≤ 1) (hl : ∀ s ∈ ss, s.line = line)
      (h : ∀ lines, statements line (tokens :: lines) = .ok ⟨ss, true⟩)
  | refuse (cause : Cause) (h : ∀ lines, statements line (tokens :: lines) = .error ⟨line, cause⟩)

theorem lineStep (line : Nat) (tokens : List String) : LineStep line tokens := by
  cases tokens with
  | nil => exact .skip fun lines => by rw [statements]
  | cons name rest =>
    by_cases hend : isEnd name = true
    · exact .stop [] (by simp) (by simp) fun lines => by rw [statements, if_pos hend]
    by_cases hcmd : isCommand name = true
    · refine .statement ⟨line, none, some ⟨name, rest⟩⟩ rfl fun lines => ?_
      rw [statements, if_neg hend, if_pos hcmd]
    by_cases hdot : name.toList.head? = some '.'
    · refine .refuse (.unknownDirective name) fun lines => ?_
      rw [statements, if_neg hend, if_neg hcmd, if_pos hdot]
    by_cases hname : isLabelName name = true
    · cases hafter : afterLabel? rest with
      | none =>
        refine .stop [⟨line, some name, none⟩] (by simp) (by simp) fun lines => ?_
        rw [statements, if_neg hend, if_neg hcmd, if_neg hdot, if_pos hname, hafter]
      | some command =>
        refine .statement ⟨line, some name, command⟩ rfl fun lines => ?_
        rw [statements, if_neg hend, if_neg hcmd, if_neg hdot, if_pos hname, hafter]
    · refine .refuse (.labelName name) fun lines => ?_
      rw [statements, if_neg hend, if_neg hcmd, if_neg hdot, if_neg hname]

/-! ## The lines in front -/

theorem statements_end (line : Nat) : statements line [[".END"]] = .ok ⟨[], true⟩ := by
  rw [statements, if_pos (by decide)]

section

variable {first : Nat} {lines : List (List String)}

/-- The lines in front of a statement hold just the statements in front of it. -/
theorem statements_closed {body : Body} (h : statements first lines = .ok body)
    {before after : List Statement} {s : Statement} (hs : body.statements = before ++ s :: after) :
    ∃ index, s.line = first + index ∧
      statements first (lines.take index ++ [[".END"]]) = .ok ⟨before, true⟩ := by
  induction lines generalizing first body before with
  | nil =>
    cases h
    simp at hs
  | cons tokens lines ih =>
    cases lineStep first tokens with
    | skip hstep =>
      rw [hstep] at h
      obtain ⟨index, hl, hb⟩ := ih h hs
      exact ⟨index + 1, by omega, (hstep _).trans hb⟩
    | statement t ht hstep =>
      rw [hstep] at h
      obtain ⟨b, hb, hcons⟩ := bind_eq_ok.mp h
      obtain rfl := pure_eq_ok.mp hcons
      change t :: b.statements = _ at hs
      rcases List.cons_eq_append_iff.mp hs with ⟨rfl, hhead⟩ | ⟨before, rfl, hrest⟩
      · obtain ⟨rfl, -⟩ := List.cons.inj hhead
        exact ⟨0, ht, statements_end first⟩
      · obtain ⟨index, hl, hb⟩ := ih hb hrest
        refine ⟨index + 1, by omega, ?_⟩
        rw [List.take_succ_cons, List.cons_append, hstep, hb]
        rfl
    | stop ss hlen hl hstep =>
      rw [hstep] at h
      cases h
      obtain rfl : ss = before ++ s :: after := hs
      obtain rfl : before = [] := by
        rw [List.length_append, List.length_cons] at hlen
        exact List.eq_nil_of_length_eq_zero (by omega)
      exact ⟨0, hl s (by simp), statements_end first⟩
    | refuse cause hstep =>
      rw [hstep] at h
      cases h

theorem statements_closed_of_error {d : Diagnostic} (h : statements first lines = .error d) :
    ∃ index ss, d.line = first + index ∧ (∀ s ∈ ss, s.line < d.line) ∧
      statements first (lines.take index ++ [[".END"]]) = .ok ⟨ss, true⟩ := by
  induction lines generalizing first with
  | nil => cases h
  | cons tokens lines ih =>
    cases lineStep first tokens with
    | skip hstep =>
      rw [hstep] at h
      obtain ⟨index, ss, hl, hss, hb⟩ := ih h
      exact ⟨index + 1, ss, by omega, hss, (hstep _).trans hb⟩
    | statement t ht hstep =>
      rw [hstep, return_eq_error] at h
      obtain ⟨index, ss, hl, hss, hb⟩ := ih h
      refine ⟨index + 1, t :: ss, by omega, List.forall_mem_cons.mpr ⟨by omega, hss⟩, ?_⟩
      rw [List.take_succ_cons, List.cons_append, hstep, hb]
      rfl
    | stop ss hlen hl hstep =>
      rw [hstep] at h
      cases h
    | refuse cause hstep =>
      rw [hstep] at h
      cases h
      exact ⟨0, [], rfl, by simp, statements_end first⟩

end

theorem exists_failure_of_placeAll {ss : List Statement} {symbols : SymbolTable} {a : Int}
    {d : Diagnostic} (h : placeAll symbols a ss = .error d) :
    ∃ before s after, ss = before ++ s :: after ∧ s.line = d.line ∧
      ∃ t stop, placeAll symbols a before = .ok (t, stop) := by
  induction ss generalizing symbols a with
  | nil => cases h
  | cons s rest ih =>
    rcases bind_eq_error.mp h with h | ⟨⟨t, next⟩, hs, h⟩
    · obtain ⟨cause, -, rfl⟩ := atLine_eq_error.mp h
      exact ⟨[], s, rest, rfl, rfl, _, _, rfl⟩
    · obtain ⟨before, s', after, rfl, hl, u, stop, hb⟩ := ih h
      refine ⟨s :: before, s', after, rfl, hl, u, stop, ?_⟩
      rw [placeAll, hs]
      exact hb

/-! ## Sources -/

/-- The lines in front of the one with this number, and an end. -/
def closedBefore (lines : List (List String)) (line : Nat) : List (List String) :=
  lines.take (line - 1) ++ [[".END"]]

variable {lines : List (List String)} {o : Origin} {d : Diagnostic}

theorem bodyFrom_closedBefore {start : Nat} (hs : start ≤ lines.length) (index : Nat) :
    bodyFrom (closedBefore lines (start + 1 + index)) start =
      statements (start + 1) ((lines.drop start).take index ++ [[".END"]]) := by
  have hline : start + 1 + index - 1 = start + index := by omega
  have hlen : start ≤ (lines.take (start + index)).length := by
    rw [List.length_take]
    omega
  rw [bodyFrom, closedBefore, hline, List.drop_append_of_le_length hlen, List.drop_take,
    Nat.add_sub_cancel_left]

theorem findOrigin_closedBefore (ho : findOrigin lines = .ok o) (index : Nat) :
    o.start ≤ lines.length ∧ findOrigin (closedBefore lines (o.start + 1 + index)) = .ok o := by
  obtain ⟨blank, directive, operand, rest, rfl, hblank, hstart, h⟩ := findOrigin_eq_ok.mp ho
  refine ⟨by simp [hstart], findOrigin_eq_ok.mpr
    ⟨blank, directive, operand, rest.take index ++ [[".END"]], ?_, hblank, hstart, h⟩⟩
  have hline : o.start + 1 + index - 1 = blank.length + (index + 1) := by omega
  rw [closedBefore, hline, List.take_length_add_append, List.take_succ_cons, List.append_assoc]
  rfl

/-- A layout that is refused at a line. The names that the lines in front of it begin with pass, and
so do their labels, operands and sizes, unless the line is refused for the name that it begins with;
then lines in front of it may be refused for other reasons. -/
theorem layout_refuses_first (ho : findOrigin lines = .ok o)
    (h : layout lines o.address o.start = .error d) (hd : d.cause ≠ .missingEnd) :
    findOrigin (closedBefore lines d.line) = .ok o ∧
      (∃ ss, bodyFrom (closedBefore lines d.line) o.start = .ok ⟨ss, true⟩) ∧
        ((∃ l, layout (closedBefore lines d.line) o.address o.start = .ok l) ∨
          bodyFrom lines o.start = .error d ∧ ∃ d',
            layout (closedBefore lines d.line) o.address o.start = .error d' ∧
              d'.line < d.line) := by
  rcases bind_eq_error.mp h with hwalk | ⟨body, hb, h⟩
  · obtain ⟨index, ss, hline, hss, hclosed⟩ := statements_closed_of_error hwalk
    obtain ⟨hlen, horigin⟩ := findOrigin_closedBefore ho index
    rw [← bodyFrom_closedBefore hlen, ← hline] at hclosed
    rw [← hline] at horigin
    refine ⟨horigin, ⟨ss, hclosed⟩, ?_⟩
    cases hp : placeAll ∅ o.address ss with
    | ok r => exact .inl ⟨_, layout_of_placeAll hclosed rfl hp⟩
    | error d' =>
      obtain ⟨s, hs, hl, -⟩ := placeAll_eq_error hp
      refine .inr ⟨hwalk, d', ?_, hl ▸ hss s hs⟩
      exact bind_eq_error.mpr (.inr ⟨_, hclosed, bind_eq_error.mpr (.inl hp)⟩)
  · rcases bind_eq_error.mp h with h | ⟨⟨symbols, stop⟩, -, h⟩
    · obtain ⟨before, s, after, hs, hl, t, stop, hp⟩ := exists_failure_of_placeAll h
      obtain ⟨index, hline, hclosed⟩ := statements_closed hb hs
      obtain ⟨hlen, horigin⟩ := findOrigin_closedBefore ho index
      rw [hl] at hline
      rw [← bodyFrom_closedBefore hlen, ← hline] at hclosed
      rw [← hline] at horigin
      exact ⟨horigin, ⟨before, hclosed⟩, .inl ⟨_, layout_of_placeAll hclosed rfl hp⟩⟩
    · dsimp only at h
      split at h
      · cases h
        exact absurd rfl hd
      · exact absurd h pure_ne_error

/-- A label at a second address, behind an empty line. -/
theorem layout_refuses_first_relabelled :
    let lines := [[".ORIG", "x3000"], ["A", "RET"], [], ["A", ".FILL", "B"], [".END"], ["?"]]
    let o : Origin := ⟨0x3000, 1⟩
    let d : Diagnostic := ⟨4, .labelBound "A" 0x3000⟩
    findOrigin lines = .ok o ∧ layout lines o.address o.start = .error d ∧
      d.cause ≠ .missingEnd ∧ ∃ l, layout (closedBefore lines 4) o.address o.start = .ok l := by
  intro lines o d
  have ho : findOrigin lines = .ok o := by decide
  have hlayout : layout lines o.address o.start = .error d := by rfl
  have hcause : d.cause ≠ .missingEnd := by decide
  have hwalk : bodyFrom lines o.start ≠ .error d := by decide
  obtain ⟨-, -, hl | ⟨hrefused, -⟩⟩ := layout_refuses_first ho hlayout hcause
  · exact ⟨ho, hlayout, hcause, hl⟩
  · exact absurd hrefused hwalk

/-- A block of negative length stands in front of a line that is refused for its name. -/
theorem layout_passes_over_block :
    ¬∀ (lines : List (List String)) (o : Origin) (d : Diagnostic) (message : String),
      findOrigin lines = .ok o → layout lines o.address o.start = .error d →
        d.message = .ok message → d.cause ≠ .missingEnd →
          ∃ l, layout (closedBefore lines d.line) o.address o.start = .ok l := by
  intro h
  let lines := [[".ORIG", "x3000"], [".BLKW", "#-1"], ["?"], [".END"]]
  have ho : findOrigin lines = .ok ⟨0x3000, 1⟩ := by decide
  have hlayout : layout lines 0x3000 1 = .error ⟨3, .labelName "?"⟩ := by rfl
  have hbefore : layout (closedBefore lines 3) 0x3000 1 = .error ⟨2, .blockNegative (-1)⟩ := by
    rfl
  obtain ⟨l, hl⟩ := h lines _ _ _ ho hlayout rfl (by decide)
  rw [hbefore] at hl
  cases hl

end LC3.Assembly
