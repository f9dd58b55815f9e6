import LC3.Assembly.Literal
import LC3.Assembly.Token
import LC3.Proofs.Numeral
import Mathlib.Data.List.Induction

/-!
# Numerals that are not too long

A text without long runs of hexadecimal digits has none in its tokens, since these are pieces of it
(`isInfix_of_mem_tokenize`). All numerals in it can then be read, and their numbers written in
decimal (`readable_of_shortRuns`).
-/

namespace LC3

/-! ## Runs of digits -/

namespace Numeral

/-- No run of hexadecimal digits is longer than this. Numbers of so many hexadecimal digits have no
more than `maxDigits` decimal ones. -/
def ShortRuns (s : List Char) : Prop :=
  ∀ run, run <:+: s → (∀ c ∈ run, (digitValue? 16 c).isSome = true) → run.length ≤ 3500

theorem ShortRuns.of_isInfix {s t : List Char} (h : ShortRuns s) (ht : t <:+: s) : ShortRuns t :=
  fun run hrun => h run (hrun.trans ht)

theorem ShortRuns.of_cons {c : Char} {s : List Char} (h : ShortRuns (c :: s)) : ShortRuns s :=
  h.of_isInfix (List.suffix_cons c s).isInfix

theorem shortRuns_of_length {s : List Char} (h : s.length ≤ 3500) : ShortRuns s :=
  fun _ hrun _ => hrun.length_le.trans h

theorem digitValue?_lt {base d : Nat} {c : Char} (h : digitValue? base c = some d) : d < base := by
  unfold digitValue? at h
  simpa using (Option.filter_eq_some_iff.mp h).2

theorem isSome_digitValue? {base d : Nat} {c : Char} (hb : base ≤ 16)
    (h : digitValue? base c = some d) : (digitValue? 16 c).isSome = true := by
  have hd := digitValue?_lt h
  unfold digitValue? at h ⊢
  have hs := (Option.filter_eq_some_iff.mp h).1
  rw [Option.isSome_iff_exists]
  exact ⟨d, Option.filter_eq_some_iff.mpr ⟨hs, by simp; omega⟩⟩

theorem Writes.of_append {base n : Nat} {s : List Char} {c : Char} (h : Writes base (s ++ [c]) n) :
    ∃ m d, Writes base s m ∧ digitValue? base c = some d ∧ n = base * m + d := by
  obtain ⟨ds, hs, rfl⟩ := h
  simp only [List.mapM_append, List.mapM_cons, List.mapM_nil, Option.bind_eq_bind,
    Option.bind_eq_some_iff, Option.pure_def, Option.some.injEq] at hs
  obtain ⟨ds, hs, _, ⟨d, hd, _, rfl, rfl⟩, rfl⟩ := hs
  exact ⟨_, d, ⟨ds, hs, rfl⟩, hd, valueOf_append base ds d⟩

theorem Writes.lt {base n : Nat} {s : List Char} (h : Writes base s n) : n < base ^ s.length := by
  induction s using List.reverseRecOn generalizing n with
  | nil =>
    obtain ⟨ds, hs, rfl⟩ := h
    cases hs
    exact Nat.zero_lt_one
  | append_singleton s c ih =>
    obtain ⟨m, d, hm, hd, rfl⟩ := h.of_append
    have hlt := ih hm
    have hd := digitValue?_lt hd
    rw [List.length_append, List.length_singleton, Nat.pow_succ']
    calc base * m + d
        < base * m + base := by omega
      _ = base * (m + 1) := (Nat.mul_succ base m).symm
      _ ≤ base * base ^ s.length := Nat.mul_le_mul_left base hlt

theorem pow_le_maxDigits {base k : Nat} (hb : base ≤ 16) (hk : k ≤ 3500) :
    base ^ k ≤ 10 ^ maxDigits := by
  have hmax : maxDigits = 43 * 100 := rfl
  have h35 : 16 ^ 35 ≤ 10 ^ 43 := by decide
  calc base ^ k
      ≤ 16 ^ k := Nat.pow_le_pow_left hb k
    _ ≤ 16 ^ (35 * 100) := Nat.pow_le_pow_right (by decide) hk
    _ = (16 ^ 35) ^ 100 := Nat.pow_mul 16 35 100
    _ ≤ (10 ^ 43) ^ 100 := Nat.pow_le_pow_left h35 100
    _ = 10 ^ maxDigits := by rw [hmax, Nat.pow_mul]

/-- Digits that are not too many write a number that can be written in decimal. -/
theorem Writes.bounds {base n : Nat} {s : List Char} (h : Writes base s n) (hb : base ≤ 16)
    (hs : ShortRuns s) : s.length ≤ 3500 ∧ n < 10 ^ maxDigits := by
  have hl : s.length ≤ 3500 := hs s (List.infix_refl s) fun c hc => by
    obtain ⟨d, hd⟩ := h.exists_digit hc
    exact isSome_digitValue? hb hd
  exact ⟨hl, h.lt.trans_le (pow_le_maxDigits hb hl)⟩

theorem writes_of_digitValues? {base : Nat} {s : List Char} {ds : List Nat}
    (h : digitValues? base s = some ds) :
    Writes base s (valueOf base ds) ∧ ds.length = s.length := by
  unfold digitValues? at h
  split at h
  · cases h
  · have hw : Writes base s (valueOf base ds) := ⟨ds, h, rfl⟩
    obtain ⟨_, h', -, hl⟩ := hw.length
    obtain rfl := Option.some.inj (h.symm.trans h')
    exact ⟨hw, hl⟩

/-! ## Reading -/

/-- The number, if there is one, can be written in decimal. -/
def Writable (v : Option Int) : Prop :=
  ∀ n ∈ v, n.natAbs < 10 ^ maxDigits

theorem writable_map {v : Option Nat} {f : Int → Int} (hf : ∀ n, (f n).natAbs = n.natAbs)
    (h : ∀ n ∈ v, n < 10 ^ maxDigits) : Writable (Option.map f do return ((← v : Nat) : Int)) := by
  cases v with
  | none => simp [Writable]
  | some n =>
    rintro m hm
    cases hm
    rw [hf]
    exact h n rfl

variable {s : List Char}

theorem readHex?_lt (hs : ShortRuns s) {n : Nat} (h : readHex? s = some n) :
    n < 10 ^ maxDigits := by
  obtain ⟨ds, hds, rfl⟩ := Option.map_eq_some_iff.mp h
  exact ((writes_of_digitValues? hds).1.bounds (by decide) hs).2

theorem readDecimal_of_shortRuns (hs : ShortRuns s) :
    ∃ v, readDecimal s = .ok v ∧ ∀ n ∈ v, n < 10 ^ maxDigits := by
  unfold readDecimal
  cases hds : digitValues? 10 s with
  | none => exact ⟨none, rfl, by simp⟩
  | some ds =>
    obtain ⟨hw, hlen⟩ := writes_of_digitValues? hds
    obtain ⟨hl, hlt⟩ := hw.bounds (by decide) hs
    have hmax : maxDigits = 4300 := rfl
    exact ⟨some (valueOf 10 ds), if_neg (by omega), by simpa using hlt⟩

theorem readMagnitude_of_shortRuns (hs : ShortRuns s) :
    ∃ v, readMagnitude s = .ok v ∧ ∀ n ∈ v, n < 10 ^ maxDigits := by
  unfold readMagnitude
  split
  · exact ⟨_, rfl, fun n hn => readHex?_lt hs.of_cons hn⟩
  · exact ⟨_, rfl, fun n hn => readHex?_lt hs.of_cons hn⟩
  · exact readDecimal_of_shortRuns hs

theorem read_of_shortRuns (hs : ShortRuns s) : ∃ v, Numeral.read s = .ok v ∧ Writable v := by
  unfold Numeral.read
  split
  · obtain ⟨v, hv, hlt⟩ := readMagnitude_of_shortRuns hs.of_cons
    exact ⟨_, by rw [hv]; rfl, writable_map Int.natAbs_neg hlt⟩
  · obtain ⟨v, hv, hlt⟩ := readMagnitude_of_shortRuns hs
    exact ⟨_, by rw [hv]; rfl, writable_map (fun _ => rfl) hlt⟩

end Numeral

/-! ## Literals -/

namespace Assembly.Literal

open Numeral

variable {s : List Char}

theorem writable_signed {v : Option Int} (negate : Bool) (h : Writable v) :
    Writable (signed negate v) := by
  intro n hn
  cases v with
  | none => cases hn
  | some m =>
    have hm := h m rfl
    unfold signed at hn
    simp only [Option.mem_def] at hn
    split at hn
    · cases hn
    · cases hn
      split <;> simpa using hm

theorem writable_hexadecimal (negate : Bool) (hs : ShortRuns s) :
    Writable (hexadecimal negate s) := by
  exact writable_signed negate (writable_map (fun _ => rfl) fun n hn => readHex?_lt hs hn)

theorem writable_afterMarker (hs : ShortRuns s) : Writable (afterMarker s) := by
  unfold afterMarker
  split
  · exact writable_hexadecimal true hs.of_cons
  · exact writable_hexadecimal false hs

theorem decimal_of_shortRuns (negate : Bool) (hs : ShortRuns s) :
    ∃ v, decimal negate s = .ok v ∧ Writable v := by
  unfold decimal
  split
  · exact ⟨none, rfl, by simp [Writable]⟩
  · exact ⟨none, rfl, by simp [Writable]⟩
  · obtain ⟨v, hv, hlt⟩ := Numeral.read_of_shortRuns hs
    exact ⟨_, by rw [hv]; rfl, writable_signed negate hlt⟩

/-- The token can be read, and the number that it stands for can be written in decimal. -/
def Readable (token : String) : Prop :=
  ∃ v, value? token = .ok v ∧ Writable v

theorem readable_of_shortRuns {token : String} (hs : ShortRuns token.toList) : Readable token := by
  unfold Readable value?
  generalize token.toList = s at hs
  unfold read
  split
  · exact decimal_of_shortRuns true hs.of_cons.of_cons
  · exact decimal_of_shortRuns false hs.of_cons
  · exact ⟨_, rfl, writable_hexadecimal true hs.of_cons.of_cons⟩
  · exact ⟨_, rfl, writable_hexadecimal true hs.of_cons.of_cons⟩
  · exact ⟨_, rfl, writable_afterMarker hs.of_cons⟩
  · exact ⟨_, rfl, writable_afterMarker hs.of_cons⟩
  · exact ⟨none, rfl, by simp [Writable]⟩

end Assembly.Literal

/-! ## Tokens -/

namespace Assembly

theorem isInfix_takeWhile (p : Char → Bool) (c : Char) (s : List Char) :
    c :: s.takeWhile p <:+: c :: s :=
  (List.prefix_cons_inj c).mpr (List.takeWhile_prefix p) |>.isInfix

/-- The lines are pieces of the text, and the first one begins it. -/
theorem splitLines_cases (s : List Char) :
    ∃ line lines, splitLines s = line :: lines ∧ line <+: s ∧ ∀ l ∈ lines, l <:+: s := by
  fun_induction splitLines s with
  | case1 => exact ⟨[], [], rfl, List.nil_prefix, by simp⟩
  | case2 s ih =>
    obtain ⟨line, lines, hs, hline, hlines⟩ := ih
    rw [hs]
    refine ⟨[], _, rfl, List.nil_prefix, List.forall_mem_cons.mpr ⟨?_, fun l hl => ?_⟩⟩
    · exact hline.isInfix.trans (List.suffix_append ['\r', '\n'] s).isInfix
    · exact (hlines l hl).trans (List.suffix_append ['\r', '\n'] s).isInfix
  | case3 s ih =>
    obtain ⟨line, lines, hs, hline, hlines⟩ := ih
    rw [hs]
    refine ⟨[], _, rfl, List.nil_prefix, List.forall_mem_cons.mpr ⟨?_, fun l hl => ?_⟩⟩
    · exact hline.isInfix.trans (List.suffix_cons '\n' s).isInfix
    · exact (hlines l hl).trans (List.suffix_cons '\n' s).isInfix
  | case4 c s _ _ hs ih =>
    obtain ⟨line, lines, hs', -⟩ := ih
    rw [hs] at hs'
    cases hs'
  | case5 c s _ _ line lines hs ih =>
    obtain ⟨line', lines', hs', hline, hlines⟩ := ih
    obtain ⟨rfl, rfl⟩ := List.cons.inj (hs.symm.trans hs')
    exact ⟨_, _, rfl, (List.prefix_cons_inj c).mpr hline,
      fun l hl => (hlines l hl).trans (List.suffix_cons c s).isInfix⟩

theorem isInfix_of_mem_splitLines {s l : List Char} (h : l ∈ splitLines s) : l <:+: s := by
  obtain ⟨line, lines, hs, hline, hlines⟩ := splitLines_cases s
  rw [hs] at h
  rcases List.mem_cons.mp h with rfl | h
  · exact hline.isInfix
  · exact hlines l h

theorem isInfix_of_mem_words {s t : List Char} (h : t ∈ words s) : t <:+: s := by
  fun_induction words s with
  | case1 => cases h
  | case2 => cases h
  | case3 c s hc hsep ih => exact (ih h).trans (List.suffix_cons c s).isInfix
  | case4 c s hc hsep ih =>
    rcases List.mem_cons.mp h with rfl | h
    · exact isInfix_takeWhile inWord c s
    · exact (ih h).trans ((List.dropWhile_suffix inWord).trans (List.suffix_cons c s)).isInfix

theorem closeQuote_append {s body rest : List Char} (h : closeQuote s = some (body, rest)) :
    body ++ rest = s := by
  fun_induction closeQuote s generalizing body with
  | case1 => cases h
  | case2 s =>
    cases h
    rfl
  | case3 c s ih =>
    obtain ⟨⟨b, r⟩, hc, he⟩ := Option.map_eq_some_iff.mp h
    cases he
    rw [← ih hc]
    rfl
  | case4 c s _ _ ih =>
    obtain ⟨⟨b, r⟩, hc, he⟩ := Option.map_eq_some_iff.mp h
    cases he
    rw [← ih hc]
    rfl

theorem isInfix_of_mem_lineTokens {s t : List Char} (h : t ∈ lineTokens s) : t <:+: s := by
  fun_induction lineTokens s with
  | case1 => cases h
  | case2 => cases h
  | case3 c s _ _ ih => exact (ih h).trans (List.suffix_cons c s).isInfix
  | case4 s body rest hq _ _ ih =>
    have hs : '"' :: s = ('"' :: body) ++ rest := congrArg _ (closeQuote_append hq).symm
    rw [hs]
    rcases List.mem_cons.mp h with rfl | h
    · exact (List.prefix_append _ rest).isInfix
    · exact (ih h).trans (List.suffix_append _ rest).isInfix
  | case5 => exact isInfix_of_mem_words h
  | case6 c s _ _ _ ih =>
    rcases List.mem_cons.mp h with rfl | h
    · exact isInfix_takeWhile inWord c s
    · exact (ih h).trans ((List.dropWhile_suffix inWord).trans (List.suffix_cons c s)).isInfix

theorem isInfix_of_mem_tokenize {text token : String} {line : List String}
    (hline : line ∈ tokenize text) (h : token ∈ line) : token.toList <:+: text.toList := by
  obtain ⟨l, hl, rfl⟩ := List.mem_map.mp hline
  obtain ⟨t, ht, rfl⟩ := List.mem_map.mp h
  rw [String.toList_ofList]
  exact (isInfix_of_mem_lineTokens ht).trans (isInfix_of_mem_splitLines hl)

/-- All tokens of a text without long runs of digits can be read. -/
theorem readable_of_mem_tokenize {text token : String} {line : List String}
    (hs : Numeral.ShortRuns text.toList) (hline : line ∈ tokenize text) (h : token ∈ line) :
    Literal.Readable token :=
  Literal.readable_of_shortRuns (hs.of_isInfix (isInfix_of_mem_tokenize hline h))

end Assembly

end LC3
