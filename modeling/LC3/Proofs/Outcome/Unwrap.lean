import LC3.Outcome
import LC3.Proofs.Computation
import Mathlib.Data.List.Forall2

/-!
# What a failure raises

A failure raises its message together with the number of the line that the message begins with.
`Raised` says which fault comes of a message, by the text behind `Line ` alone: digits that write a
number, something else than digits, and two kinds of digits that stop the reading of the number, so
that the message is lost. `unwrap_failure` is that every failure raises just this.
-/

namespace LC3

open Numeral

/-! ## Digits of all scripts -/

/-- The character is the digit `d` of a script. -/
def Text.IsDecimal (c : Char) (d : Nat) : Prop :=
  d < 10 ∧ ∃ z ∈ Text.decimalZeros, c.toNat = z + d

/-- The digits of two scripts do not overlap. -/
theorem Text.decimalZeros_apart :
    ∀ y ∈ decimalZeros, ∀ z ∈ decimalZeros, y = z ∨ y + 9 < z ∨ z + 9 < y := by
  decide +kernel

theorem Text.decimalValue?_eq_some {c : Char} {d : Nat} :
    decimalValue? c = some d ↔ IsDecimal c d := by
  unfold decimalValue?
  constructor
  · intro h
    obtain ⟨z, hz, rfl⟩ := Option.map_eq_some_iff.mp h
    have hrange := List.find?_some hz
    simp only [Bool.and_eq_true, decide_eq_true_eq] at hrange
    exact ⟨by omega, z, List.mem_of_find?_eq_some hz, by omega⟩
  · rintro ⟨hd, z, hz, hc⟩
    cases hf : decimalZeros.find? fun z => z ≤ c.toNat && c.toNat ≤ z + 9 with
    | none =>
      have hout := List.find?_eq_none.mp hf z hz
      simp only [Bool.and_eq_true, decide_eq_true_eq] at hout
      omega
    | some y =>
      have hrange := List.find?_some hf
      simp only [Bool.and_eq_true, decide_eq_true_eq] at hrange
      have hapart := decimalZeros_apart y (List.mem_of_find?_eq_some hf) z hz
      have hvalue : c.toNat - y = d := by omega
      exact congrArg some hvalue

theorem Text.isDecimalDigit_iff {c : Char} : isDecimalDigit c = true ↔ ∃ d, IsDecimal c d := by
  rw [isDecimalDigit, Option.isSome_iff_exists]
  simp only [decimalValue?_eq_some]

theorem mapM_eq_some {α β : Type} {f : α → Option β} {s : List α} {t : List β} :
    s.mapM f = some t ↔ List.Forall₂ (fun a b => f a = some b) s t := by
  induction s generalizing t with
  | nil => simp [eq_comm]
  | cons a s ih =>
    simp only [List.mapM_cons, Option.bind_eq_bind, Option.bind_eq_some_iff, ih, Option.pure_def,
      Option.some.injEq, List.forall₂_cons_left_iff]
    constructor
    · rintro ⟨b, hb, u, hu, rfl⟩
      exact ⟨b, u, hb, hu, rfl⟩
    · rintro ⟨b, u, hb, hu, rfl⟩
      exact ⟨b, hb, u, hu, rfl⟩

theorem exists_of_forall₂ {α β : Type} {R : α → β → Prop} {s : List α} {t : List β}
    (h : List.Forall₂ R s t) {a : α} (ha : a ∈ s) : ∃ b, R a b := by
  induction h with
  | nil => cases ha
  | cons hab _ ih =>
    rcases List.mem_cons.mp ha with rfl | ha
    · exact ⟨_, hab⟩
    · exact ih ha

theorem takeWhile_eq_iff {p : Char → Bool} {s t : List Char} :
    s.takeWhile p = t ↔
      ∃ rest, s = t ++ rest ∧ (∀ c ∈ t, p c = true) ∧ ∀ c ∈ rest.head?, p c = false := by
  constructor
  · rintro rfl
    refine ⟨s.dropWhile p, List.takeWhile_append_dropWhile.symm, fun c hc => ?_, fun c hc => ?_⟩
    · exact List.all_eq_true.mp List.all_takeWhile c hc
    · have h := List.head?_dropWhile_not p s
      rw [hc] at h
      exact h
  · rintro ⟨rest, rfl, ht, hr⟩
    rw [List.takeWhile_append_of_pos ht]
    cases rest with
    | nil => simp
    | cons c rest => simp [hr c rfl]

namespace Outcome

/-! ## The text of a line number -/

/-- The message begins with `Line `, and this text stands behind it up to the first colon, or the
end. -/
def NamesLine (message : String) (text : List Char) : Prop :=
  ∃ rest, message.toList = ['L', 'i', 'n', 'e', ' '] ++ (text ++ rest) ∧ ':' ∉ text ∧
    ∀ c ∈ rest.head?, c = ':'

theorem lineText?_eq_some {message : String} {text : List Char} :
    lineText? message.toList = some text ↔ NamesLine message text := by
  have hbehind (s : List Char) : s.takeWhile (· ≠ ':') = text ↔
      ∃ rest, s = text ++ rest ∧ ':' ∉ text ∧ ∀ c ∈ rest.head?, c = ':' := by
    rw [takeWhile_eq_iff]
    simp [List.forall_mem_ne']
  unfold lineText? NamesLine
  split
  · rename_i s hs
    rw [hs, Option.some.injEq, hbehind]
    simp
  · rename_i hs
    simp only [reduceCtorEq, false_iff, not_exists, not_and]
    intro rest hm
    exact absurd hm (hs _)

/-- Decimal digits, each of any script, and the number that they write. -/
def WritesLine (digits : List Char) (n : Nat) : Prop :=
  ∃ ds, List.Forall₂ Text.IsDecimal digits ds ∧ valueOf 10 ds = n

/-- The decimal digits that a text begins with, as far as they go. -/
structure LeadingDigits (text digits rest : List Char) : Prop where
  text_eq : text = digits ++ rest
  digits : ∀ c ∈ digits, ∃ d, Text.IsDecimal c d
  rest : ∀ c ∈ rest.head?, ¬∃ d, Text.IsDecimal c d

theorem leadingDigits_iff {text digits : List Char} :
    text.takeWhile Text.isDecimalDigit = digits ↔ ∃ rest, LeadingDigits text digits rest := by
  rw [takeWhile_eq_iff]
  simp only [Bool.eq_false_iff, Ne, Text.isDecimalDigit_iff]
  exact exists_congr fun rest => ⟨fun ⟨h, hd, hr⟩ => ⟨h, hd, hr⟩, fun h => ⟨h.1, h.2, h.3⟩⟩

theorem exists_writesLine {digits : List Char} (h : ∀ c ∈ digits, ∃ d, Text.IsDecimal c d) :
    ∃ n, WritesLine digits n := by
  suffices ∃ ds, List.Forall₂ Text.IsDecimal digits ds from this.imp' _ fun _ hds => ⟨_, hds, rfl⟩
  induction digits with
  | nil => exact ⟨[], .nil⟩
  | cons c digits ih =>
    obtain ⟨d, hd⟩ := h c List.mem_cons_self
    obtain ⟨ds, hds⟩ := ih fun c' hc' => h c' (List.mem_cons_of_mem c hc')
    exact ⟨d :: ds, .cons hd hds⟩

/-- How digits are read: not too many may come in a row, and there may be nothing but them. -/
theorem numberOfDigits_of_leading {text digits rest : List Char}
    (h : LeadingDigits text digits rest) : numberOfDigits text =
      if maxDigits < digits.length then .error (.numeralTooLong digits.length)
      else
        match text.mapM Text.decimalValue? with
        | some values => .ok (valueOf 10 values)
        | none => .error (.notDecimal (String.ofList text)) := by
  unfold numberOfDigits
  rewrite [leadingDigits_iff.mpr ⟨rest, h⟩]
  rfl

theorem WritesLine.digits {text : List Char} {n : Nat} (h : WritesLine text n) :
    ∀ c ∈ text, ∃ d, Text.IsDecimal c d := by
  obtain ⟨ds, hds, -⟩ := h
  exact fun c hc => exists_of_forall₂ hds hc

theorem numberOfDigits_of_writesLine {text : List Char} {n : Nat} (h : WritesLine text n)
    (hl : text.length ≤ maxDigits) : numberOfDigits text = .ok n := by
  have hleading : LeadingDigits text text [] := ⟨(List.append_nil text).symm, h.digits, by simp⟩
  obtain ⟨ds, hds, rfl⟩ := h
  have hvalues : text.mapM Text.decimalValue? = some ds :=
    mapM_eq_some.mpr (hds.imp fun _ _ => Text.decimalValue?_eq_some.mpr)
  rw [numberOfDigits_of_leading hleading, if_neg (by omega), hvalues]

/-! ## What is raised -/

/-- What comes of the message of a failure. -/
inductive Raised (message : String) : Fault → Prop where
  /-- The message names its line by a number that is not too long. -/
  | line {text : List Char} {n : Nat} (ht : NamesLine message text) (hne : text ≠ [])
      (hn : WritesLine text n) (hl : text.length ≤ maxDigits) :
      Raised message (.diagnostic message (some n))
  /-- The message does not name its line: something else than digits is there, or nothing. -/
  | noLine (h : ∀ text, NamesLine message text →
      text = [] ∨ ∃ c ∈ text, Text.isDigit c = false) :
      Raised message (.diagnostic message none)
  /-- There are digits, but too many decimal ones in a row. -/
  | tooLong {text digits rest : List Char} (ht : NamesLine message text)
      (hd : ∀ c ∈ text, Text.isDigit c = true) (h : LeadingDigits text digits rest)
      (hl : maxDigits < digits.length) : Raised message (.numeralTooLong digits.length)
  /-- There are digits, but some of them are no decimal digits. -/
  | notDecimal {text digits rest : List Char} (ht : NamesLine message text)
      (hd : ∀ c ∈ text, Text.isDigit c = true) (h : LeadingDigits text digits rest)
      (hl : digits.length ≤ maxDigits) (hr : rest ≠ []) :
      Raised message (.notDecimal (String.ofList text))

variable {message : String}

theorem lineNumber_of_digits {text : List Char} (ht : NamesLine message text) (hne : text ≠ [])
    (hd : ∀ c ∈ text, Text.isDigit c = true) :
    lineNumber message = some <$> numberOfDigits text := by
  have hdigits : (!text.isEmpty && text.all Text.isDigit) = true := by
    rw [List.all_eq_true.mpr hd]
    simpa using hne
  unfold lineNumber
  rw [lineText?_eq_some.mpr ht]
  dsimp only
  rw [if_pos hdigits]

theorem unwrap_of_raised {f : Fault} (h : Raised message f) :
    (failure message).unwrap = .error f := by
  cases h with
  | @line text n ht hne hn hl =>
    have hd : ∀ c ∈ text, Text.isDigit c = true := fun c hc => by
      rw [Text.isDigit, Text.isDecimalDigit_iff.mpr (hn.digits c hc), Bool.true_or]
    rw [unwrap, lineNumber_of_digits ht hne hd, numberOfDigits_of_writesLine hn hl]
    rfl
  | noLine h =>
    have hline : lineNumber message = .ok none := by
      unfold lineNumber
      split
      · rfl
      · rename_i text ht
        rw [if_neg]
        rcases h text (lineText?_eq_some.mp ht) with rfl | ⟨c, hc, hno⟩
        · simp
        · intro hall
          simp only [Bool.and_eq_true, List.all_eq_true] at hall
          rw [hall.2 c hc] at hno
          cases hno
    rw [unwrap, hline]
    rfl
  | @tooLong text digits rest ht hd h hl =>
    have hne : text ≠ [] := by
      rintro rfl
      have := congrArg List.length h.text_eq
      simp at this
      omega
    rw [unwrap, lineNumber_of_digits ht hne hd, numberOfDigits_of_leading h, if_pos hl]
    rfl
  | @notDecimal text digits rest ht hd h hl hr =>
    obtain ⟨c, rest, rfl⟩ := List.exists_cons_of_ne_nil hr
    have hc : c ∈ text := by simp [h.text_eq]
    have hvalues : text.mapM Text.decimalValue? = none := by
      refine Option.eq_none_iff_forall_not_mem.mpr fun ds hds => ?_
      obtain ⟨d, hd⟩ := exists_of_forall₂ (mapM_eq_some.mp hds) hc
      exact h.rest c rfl ⟨d, Text.decimalValue?_eq_some.mp hd⟩
    rw [unwrap, lineNumber_of_digits ht (List.ne_nil_of_mem hc) hd, numberOfDigits_of_leading h,
      if_neg (by omega), hvalues]
    rfl

theorem exists_raised (message : String) : ∃ f, Raised message f := by
  by_cases hline : ∃ text, NamesLine message text ∧ text ≠ [] ∧ ∀ c ∈ text, Text.isDigit c = true
  · obtain ⟨text, ht, hne, hd⟩ := hline
    obtain ⟨rest, h⟩ := leadingDigits_iff.mp (rfl : text.takeWhile Text.isDecimalDigit = _)
    by_cases hl : maxDigits < (text.takeWhile Text.isDecimalDigit).length
    · exact ⟨_, .tooLong ht hd h hl⟩
    · by_cases hr : rest = []
      · have hall : text = text.takeWhile Text.isDecimalDigit := by
          simpa [hr] using h.text_eq
        obtain ⟨n, hn⟩ := exists_writesLine h.digits
        rw [← hall] at hn hl
        exact ⟨_, .line ht hne hn (by omega)⟩
      · exact ⟨_, .notDecimal ht hd h (by omega) hr⟩
  · refine ⟨_, .noLine fun text ht => ?_⟩
    by_contra hno
    simp only [not_or, not_exists, not_and, Bool.not_eq_false] at hno
    exact hline ⟨text, ht, hno⟩

/-- Every failure raises exactly what `Raised` says. This is its message with the number of the line
that it names, or with none, unless the digits in that place are too many or no decimal ones. -/
theorem unwrap_failure (message : String) :
    (∃ f, Raised message f) ∧ ∀ f, (failure message).unwrap = .error f ↔ Raised message f := by
  obtain ⟨g, hg⟩ := exists_raised message
  refine ⟨⟨g, hg⟩, fun f => ⟨fun h => ?_, unwrap_of_raised⟩⟩
  rw [unwrap_of_raised hg] at h
  cases h
  exact hg

/-- A superscript is a digit, but no decimal one, and the message in which it stands for the number
of the line is lost. -/
theorem unwrap_superscript (line : Option Nat) :
    (failure "Line ²: x").unwrap ≠ .error (.diagnostic "Line ²: x" line) := by
  have hraised : Raised "Line ²: x" (.notDecimal "²") := by
    have hnames : NamesLine "Line ²: x" ['²'] := ⟨[':', ' ', 'x'], rfl, by decide, by simp⟩
    have hleading : LeadingDigits ['²'] [] ['²'] := by
      refine ⟨rfl, by simp, fun c hc => ?_⟩
      cases hc
      rw [← Text.isDecimalDigit_iff]
      decide
    have hdigit : Text.isDigit '²' = true := by decide
    exact .notDecimal hnames (List.forall_mem_singleton.mpr hdigit) hleading (Nat.zero_le _)
      (List.cons_ne_nil _ _)
  rw [unwrap_of_raised hraised]
  exact nofun

end Outcome

end LC3
