import LC3.Proofs.Assembly.Denotation

/-!
# Names of commands and labels

Which kind of name a token is, is decided in several places: by its upper case, by its first
character, and by the characters of label names. Here they are shown to agree. Only a name that
begins with a dot has an upper case that does (`head?_upper`), so that the names of directives, of
instructions, and of labels never meet.
-/

namespace LC3.Assembly

/-- What holds of the first 128 characters, one by one, holds of all of ASCII. -/
theorem forall_ascii {P : Char → Prop} (h : ∀ n < 128, P (Char.ofNat n)) {c : Char}
    (hc : c.toNat < 128) : P c := by
  have hchar := h c.toNat hc
  rwa [Char.ofNat_toNat] at hchar

/-! ## The dot -/

theorem eq_of_ofNat_dot {n : Nat} (h : Char.ofNat n = '.') : n = 46 := by
  by_cases hv : n.isValidChar
  · rw [Char.ofNat, dif_pos hv] at h
    exact congrArg Char.toNat h
  · rw [Char.ofNat, dif_neg hv] at h
    exact absurd h (by decide)

/-- No upper case begins with a dot, except that of the dot. -/
theorem upperChar_ne_dot {c : Char} (hc : c ≠ '.') :
    ∃ d ds, Text.upperChar c = d :: ds ∧ d ≠ '.' := by
  have hascii : c.toNat < 128 → c.toUpper = '.' → c = '.' :=
    forall_ascii (P := fun d => d.toUpper = '.' → d = '.') (by decide +kernel)
  have hcodes : ∀ e ∈ Text.caseExpansions, (e.2.head?.any (· ≠ 46)) = true := by decide +kernel
  have hruns : ∀ r ∈ Text.caseRuns, 46 < r.first + r.shift := by decide +kernel
  unfold Text.upperChar
  split
  · rename_i hlt
    exact ⟨c.toUpper, [], rfl, fun h => hc (hascii hlt h)⟩
  · rename_i hlt
    unfold Text.upperByTable
    split
    · rename_i codes hl
      obtain ⟨before, after, ht, -⟩ := List.lookup_eq_some_iff.mp hl
      have hk := hcodes (c.toNat, codes) (by rw [ht]; simp)
      cases codes with
      | nil => cases hk
      | cons k ks =>
        refine ⟨Char.ofNat k, ks.map Char.ofNat, rfl, fun h => ?_⟩
        simp [eq_of_ofNat_dot h] at hk
    · split
      · rename_i run hr
        have hcovers := List.find?_some hr
        have hrun := hruns run (List.mem_of_find?_eq_some hr)
        simp only [Text.CaseRun.covers, Bool.and_eq_true, decide_eq_true_eq] at hcovers
        refine ⟨_, [], rfl, fun h => ?_⟩
        have := eq_of_ofNat_dot h
        omega
      · exact ⟨c, [], rfl, hc⟩

theorem head?_upper {s : String} (h : (Text.upper s).toList.head? = some '.') :
    s.toList.head? = some '.' := by
  rw [Text.upper, String.toList_ofList] at h
  cases hs : s.toList with
  | nil =>
    rw [hs] at h
    cases h
  | cons c t =>
    by_cases hc : c = '.'
    · exact congrArg some hc
    · obtain ⟨d, ds, hu, hd⟩ := upperChar_ne_dot hc
      rw [hs, List.flatMap_cons, hu] at h
      exact absurd (Option.some.inj h) hd

/-! ## Labels -/

theorem value?_of_isLabelName {s : String} (h : isLabelName s = true) :
    Literal.value? s = .ok none := by
  unfold isLabelName at h
  split at h
  · assumption
  · simp at h

theorem head?_of_isLabelName {s : String} (h : isLabelName s = true) :
    s.toList.head? ≠ some '.' := by
  simp only [isLabelName, Bool.and_eq_true, List.all_eq_true] at h
  obtain ⟨⟨⟨⟨-, hall⟩, -⟩, -⟩, -⟩ := h
  intro hd
  exact absurd (hall '.' (List.mem_of_head? hd)) (by decide)

theorem head?_of_isEnd {s : String} (h : isEnd s = true) : s.toList.head? = some '.' := by
  refine head?_upper ?_
  rw [of_decide_eq_true h]
  decide

theorem isEnd_of_isLabelName {s : String} (h : isLabelName s = true) : isEnd s = false := by
  cases he : isEnd s with
  | false => rfl
  | true => exact absurd (head?_of_isEnd he) (head?_of_isLabelName h)

/-! ## Commands -/

section Mnemonics

variable {name : String} {m : Mnemonic}

theorem isDirective_of_ofName? {c : Command} (h : Mnemonic.ofName? (Text.upper c.name) = some m) :
    c.isDirective = false := by
  have hall : ∀ e ∈ Mnemonic.table, e.1.toList.head? ≠ some '.' := by decide
  have hm := hall _ (mem_table h)
  unfold Command.isDirective
  cases hc : c.name.toList with
  | nil => rfl
  | cons d t =>
    refine decide_eq_false fun hd => hm ?_
    obtain rfl : d = '.' := Option.some.inj hd
    rw [Text.upper, hc, String.toList_ofList]
    rfl

theorem isEnd_of_ofName? (h : Mnemonic.ofName? (Text.upper name) = some m) :
    isEnd name = false := by
  refine decide_eq_false fun he => ?_
  have hnone : Mnemonic.ofName? ".END" = none := by decide
  rw [he, hnone] at h
  cases h

theorem isCommand_of_ofName? (h : Mnemonic.ofName? (Text.upper name) = some m) :
    isCommand name = true := by
  rw [isCommand, h]
  rfl

end Mnemonics

section Directives

variable {name : String} {d : Directive}

theorem isDirective_of_directive {c : Command} (h : Text.upper c.name = d.name) :
    c.isDirective = true := by
  refine decide_eq_true (head?_upper ?_)
  rw [h]
  cases d <;> decide

theorem isEnd_of_directive (h : Text.upper name = d.name) : isEnd name = false := by
  refine decide_eq_false fun he => ?_
  rw [h] at he
  cases d <;> exact absurd he (by decide)

theorem ofName?_of_directive (h : Text.upper name = d.name) :
    Directive.ofName? (Text.upper name) = some d := by
  rw [h]
  cases d <;> decide

theorem isCommand_of_directive (h : Text.upper name = d.name) : isCommand name = true := by
  rw [isCommand, ofName?_of_directive h, Option.isSome_some, Bool.or_true]

end Directives

end LC3.Assembly
