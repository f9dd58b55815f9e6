import LC3.Proofs.Assembly.Name
import LC3.Proofs.Assembly.Overlong
import Mathlib.Data.Nat.Digits.Defs

/-!
# How literals are spelled

`Numeral.Digits` is positional notation, said of the whole text at once, and `Literal.Spells` lists
the spellings of a literal with one minus sign at most. `value?_spelling` shows that these are the
tokens that are read as literals, with the values that they spell, but for zeros: behind `#`, zeros
with two minus signs are read as well.
-/

namespace LC3

/-! ## Digits -/

namespace Numeral

/-- The place of a character among the sixteen digits, in either case. What is no digit comes behind
them all. -/
def place (c : Char) : Nat :=
  "0123456789abcdef".toList.idxOf c.toLower

/-- One or more digits of the base, which write the number with the most significant one first. -/
structure Digits (base : Nat) (s : List Char) (n : Nat) : Prop where
  nonempty : s ≠ []
  digit : ∀ c ∈ s, place c < base
  value : n = Nat.ofDigits base (s.reverse.map place)

theorem place_of_le {c : Char} (hc : 128 ≤ c.toNat) : place c = 16 := by
  have hlower : c.toLower = c := by
    unfold Char.toLower
    split
    · rename_i h
      have hle : c.toNat ≤ 90 := h.2
      omega
    · rfl
  have hascii : "0123456789abcdef".toList.all (fun d => d.toNat < 128) = true := by decide
  have hmem : c ∉ "0123456789abcdef".toList := fun hmem => by
    have := of_decide_eq_true (List.all_eq_true.mp hascii c hmem)
    omega
  rw [place, hlower, List.idxOf_eq_length hmem]
  rfl

theorem place_eq_zero {c : Char} (h : place c = 0) : c = '0' := by
  by_cases hc : c.toNat < 128
  · exact Assembly.forall_ascii (P := fun c => place c = 0 → c = '0') (by decide +kernel) hc h
  · rw [place_of_le (by omega)] at h
    cases h

theorem digitValue?_sixteen (c : Char) :
    digitValue? 16 c = if place c < 16 then some (place c) else none := by
  by_cases hc : c.toNat < 128
  · exact Assembly.forall_ascii
      (P := fun c => digitValue? 16 c = if place c < 16 then some (place c) else none)
      (by decide +kernel) hc
  · have hrange : ¬('0' ≤ c ∧ c ≤ '9') ∧ ¬('a' ≤ c ∧ c ≤ 'f') ∧ ¬('A' ≤ c ∧ c ≤ 'F') := by
      simp only [Char.le_def, UInt32.le_iff_toNat_le]
      change ¬(48 ≤ c.toNat ∧ c.toNat ≤ 57) ∧ ¬(97 ≤ c.toNat ∧ c.toNat ≤ 102) ∧
        ¬(65 ≤ c.toNat ∧ c.toNat ≤ 70)
      omega
    simp [digitValue?, place_of_le (Nat.not_lt.mp hc), hrange]

theorem digitValue?_eq {base : Nat} (hb : base ≤ 16) (c : Char) :
    digitValue? base c = if place c < base then some (place c) else none := by
  have hlt : (fun d : Nat => decide (d < 16) && decide (d < base)) = fun d => decide (d < base) := by
    funext d
    rw [← Bool.decide_and, decide_eq_decide]
    omega
  have h : digitValue? base c = (digitValue? 16 c).filter (· < base) := by
    unfold digitValue?
    rw [Option.filter_filter, hlt]
  rw [h, digitValue?_sixteen]
  split
  · rw [Option.filter_some]
    simp
  · rw [if_neg (by omega)]
    rfl

theorem valueOf_eq_ofDigits (base : Nat) (ds : List Nat) :
    valueOf base ds = Nat.ofDigits base ds.reverse := by
  rw [valueOf, Nat.ofDigits_eq_foldr, List.foldr_reverse]
  congr 1
  funext n d
  simp [Nat.add_comm]

theorem digitValues?_eq_some {base : Nat} (hb : base ≤ 16) {s : List Char} {ds : List Nat} :
    digitValues? base s = some ds ↔ s ≠ [] ∧ (∀ c ∈ s, place c < base) ∧ ds = s.map place := by
  have hmap : s.mapM (digitValue? base) = some ds ↔
      (∀ c ∈ s, place c < base) ∧ ds = s.map place := by
    induction s generalizing ds with
    | nil => simp [eq_comm]
    | cons c s ih =>
      simp only [List.mapM_cons, Option.bind_eq_bind, Option.bind_eq_some_iff, ih,
        digitValue?_eq hb, Option.ite_none_right_eq_some, Option.some.injEq, Option.pure_def,
        List.forall_mem_cons, List.map_cons]
      constructor
      · rintro ⟨d, ⟨hc, rfl⟩, _, ⟨hs, rfl⟩, rfl⟩
        exact ⟨⟨hc, hs⟩, rfl⟩
      · rintro ⟨⟨hc, hs⟩, rfl⟩
        exact ⟨_, ⟨hc, rfl⟩, _, ⟨hs, rfl⟩, rfl⟩
  unfold digitValues?
  rw [Option.ite_none_left_eq_some, hmap, List.isEmpty_iff]

theorem digits_iff {base : Nat} (hb : base ≤ 16) {s : List Char} {n : Nat} :
    Digits base s n ↔ ∃ ds, digitValues? base s = some ds ∧ valueOf base ds = n := by
  simp only [digitValues?_eq_some hb, valueOf_eq_ofDigits]
  constructor
  · rintro ⟨hne, hd, rfl⟩
    exact ⟨_, ⟨hne, hd, rfl⟩, by rw [List.map_reverse]⟩
  · rintro ⟨_, ⟨hne, hd, rfl⟩, rfl⟩
    exact ⟨hne, hd, by rw [List.map_reverse]⟩

theorem Digits.head {base n : Nat} {c : Char} {s : List Char} (h : Digits base (c :: s) n) :
    place c < base :=
  h.digit c List.mem_cons_self

theorem digits_zero_iff {base : Nat} (hb : 0 < base) {s : List Char} :
    Digits base s 0 ↔ ∃ k, s = List.replicate (k + 1) '0' := by
  constructor
  · rintro ⟨hne, -, hv⟩
    have hzero : ∀ c ∈ s, c = '0' := fun c hc => place_eq_zero <|
      Nat.digits_zero_of_eq_zero (Nat.ne_of_gt hb) hv.symm _ (by simpa using ⟨c, hc, rfl⟩)
    refine ⟨s.length - 1, List.eq_replicate_iff.mpr ⟨?_, hzero⟩⟩
    have := List.length_pos_iff.mpr hne
    omega
  · rintro ⟨k, rfl⟩
    have hplace : place '0' = 0 := by decide
    refine ⟨by simp, fun c hc => ?_, ?_⟩
    · rw [List.eq_of_mem_replicate hc, hplace]
      exact hb
    · rw [List.reverse_replicate, List.map_replicate, hplace, Nat.ofDigits_replicate_zero]

theorem readHex?_eq_some {s : List Char} {n : Nat} : readHex? s = some n ↔ Digits 16 s n := by
  rw [readHex?, Option.map_eq_some_iff, digits_iff (by decide)]

theorem readDecimal_eq_some {s : List Char} {n : Nat} :
    readDecimal s = .ok (some n) ↔ Digits 10 s n ∧ s.length ≤ maxDigits := by
  rw [digits_iff (by decide)]
  unfold readDecimal
  split
  · rename_i h
    simp [h]
  · rename_i ds h
    have hlen : ds.length = s.length := (writes_of_digitValues? h).2
    rw [h]
    split
    · simp
      omega
    · simp
      omega

/-- The marker of hexadecimal digits. -/
def IsMarker (c : Char) : Prop :=
  c = 'x' ∨ c = 'X'

/-- The text writes a number without a sign. -/
inductive Magnitude : List Char → Nat → Prop where
  | decimal {s : List Char} {n : Nat} (h : Digits 10 s n) (hl : s.length ≤ maxDigits) :
      Magnitude s n
  | hexadecimal {x : Char} {s : List Char} {n : Nat} (hx : IsMarker x) (h : Digits 16 s n) :
      Magnitude (x :: s) n

theorem IsMarker.place {x : Char} (h : IsMarker x) : place x = 16 := by
  rcases h with rfl | rfl <;> decide

theorem readMagnitude_eq_some {s : List Char} {n : Nat} :
    readMagnitude s = .ok (some n) ↔ Magnitude s n := by
  constructor
  · intro h
    unfold readMagnitude at h
    split at h
    · exact .hexadecimal (.inl rfl) (readHex?_eq_some.mp (Except.ok.inj h))
    · exact .hexadecimal (.inr rfl) (readHex?_eq_some.mp (Except.ok.inj h))
    · obtain ⟨hd, hl⟩ := readDecimal_eq_some.mp h
      exact .decimal hd hl
  · rintro (⟨h, hl⟩ | ⟨rfl | rfl, h⟩)
    · have hx (x : Char) (hx : IsMarker x) (t : List Char) : s ≠ x :: t := by
        rintro rfl
        have := h.head
        rw [hx.place] at this
        omega
      unfold readMagnitude
      split
      · exact absurd rfl (hx _ (.inl rfl) _)
      · exact absurd rfl (hx _ (.inr rfl) _)
      · exact readDecimal_eq_some.mpr ⟨h, hl⟩
    · exact congrArg _ (readHex?_eq_some.mpr h)
    · exact congrArg _ (readHex?_eq_some.mpr h)

theorem Magnitude.head_ne {c : Char} {s : List Char} {n : Nat} (h : Magnitude (c :: s) n) :
    c ≠ '-' := by
  rintro rfl
  cases h with
  | decimal h => exact absurd h.head (by decide)
  | hexadecimal hx => rcases hx with hx | hx <;> cases hx

theorem read_eq_some {s : List Char} {n : Int} :
    Numeral.read s = .ok (some n) ↔
      (∃ m, Magnitude s m ∧ n = m) ∨ ∃ t m, s = '-' :: t ∧ Magnitude t m ∧ n = -m := by
  have hsigned (t : List Char) (f : Int → Int) :
      (readMagnitude t >>= fun v => pure (Option.map f do return ((← v : Nat) : Int))) =
        (.ok (some n) : Except Fault (Option Int)) ↔ ∃ m, Magnitude t m ∧ n = f m := by
    simp only [bind_eq_ok, pure_eq_ok, Option.map_eq_some_iff]
    constructor
    · rintro ⟨v, hv, _, hm, rfl⟩
      obtain ⟨m, rfl, hm⟩ := Option.bind_eq_some_iff.mp hm
      cases hm
      exact ⟨m, readMagnitude_eq_some.mp hv, rfl⟩
    · rintro ⟨m, hm, rfl⟩
      exact ⟨_, readMagnitude_eq_some.mpr hm, m, rfl, rfl⟩
  unfold Numeral.read
  split
  · rename_i t
    rw [hsigned t (- ·)]
    constructor
    · rintro ⟨m, hm, rfl⟩
      exact .inr ⟨t, m, rfl, hm, rfl⟩
    · rintro (⟨m, hm, -⟩ | ⟨t', m, ht, hm, rfl⟩)
      · exact absurd rfl hm.head_ne
      · cases ht
        exact ⟨m, hm, rfl⟩
  · rename_i hne
    rw [hsigned s fun n => n]
    constructor
    · exact .inl
    · rintro (h | ⟨t, m, rfl, -⟩)
      · exact h
      · exact absurd rfl (hne t)

end Numeral

/-! ## Literals -/

namespace Assembly.Literal

open Numeral

/-- The number with its sign changed if `negate` holds. -/
def withSign (negate : Bool) (m : Nat) : Int :=
  if negate then -m else m

/-- The literals: behind `#` or `x`, or behind `x` with a sign in front of it. -/
inductive Spells : List Char → Int → Prop where
  | decimal {s : List Char} {n : Nat} (h : Digits 10 s n) : Spells ('#' :: s) n
  | negativeDecimal {s : List Char} {n : Nat} (h : Digits 10 s n) : Spells ('#' :: '-' :: s) (-n)
  | hexadecimal {x : Char} {s : List Char} {n : Nat} (hx : IsMarker x) (h : Digits 16 s n) :
      Spells (x :: s) n
  | negativeHexadecimal {x : Char} {s : List Char} {n : Nat} (hx : IsMarker x)
      (h : Digits 16 s n) : Spells (x :: '-' :: s) (-n)
  | signInFront {x : Char} {s : List Char} {n : Nat} (hx : IsMarker x) (h : Digits 16 s n) :
      Spells ('-' :: x :: s) (-n)

/-- Zeros behind two minus signs. -/
inductive SignedZero : List Char → Prop where
  | decimal (k : Nat) : SignedZero ('#' :: '-' :: '-' :: List.replicate (k + 1) '0')
  | hexadecimal {x : Char} (hx : IsMarker x) (k : Nat) :
      SignedZero ('#' :: '-' :: '-' :: x :: List.replicate (k + 1) '0')

theorem signed_natCast {negate : Bool} {m : Nat} :
    signed negate (some (m : Int)) = some (withSign negate m) := by
  rw [signed, if_neg (by omega)]
  rfl

theorem hexadecimal_eq_some {negate : Bool} {s : List Char} {n : Int} :
    hexadecimal negate s = some n ↔ ∃ m, Digits 16 s m ∧ n = withSign negate m := by
  simp only [← readHex?_eq_some]
  rw [hexadecimal]
  cases readHex? s with
  | none => simp [signed]
  | some m => simp [signed_natCast, eq_comm]

theorem decimal_eq_some {negate : Bool} {s : List Char} {n : Int} :
    decimal negate s = .ok (some n) ↔
      (∃ m, Digits 10 s m ∧ s.length ≤ maxDigits ∧ n = withSign negate m) ∨
        ∃ t, s = '-' :: t ∧ Magnitude t 0 ∧ n = 0 := by
  have hsigned (v : Option Int) :
      signed negate v = some n ↔ ∃ m : Nat, v = some (m : Int) ∧ n = withSign negate m := by
    cases v with
    | none => simp [signed]
    | some k =>
      by_cases hk : k < 0
      · rw [signed, if_pos hk]
        simp
        omega
      · obtain ⟨m, rfl⟩ := Int.eq_ofNat_of_zero_le (Int.not_lt.mp hk)
        simp [signed_natCast, eq_comm]
  have hmark (x : Char) (hx : IsMarker x) (t : List Char) :
      ¬((∃ m, Digits 10 (x :: t) m ∧ (x :: t).length ≤ maxDigits ∧ n = withSign negate m) ∨
        ∃ u, x :: t = '-' :: u ∧ Magnitude u 0 ∧ n = 0) := by
    rintro (⟨m, h, -⟩ | ⟨u, h, -⟩)
    · have := h.head
      rw [hx.place] at this
      omega
    · rcases hx with rfl | rfl <;> cases h
  unfold decimal
  split
  · rename_i t
    exact iff_of_false (by simp) (hmark 'x' (.inl rfl) t)
  · rename_i t
    exact iff_of_false (by simp) (hmark 'X' (.inr rfl) t)
  · rename_i hx hX
    simp only [bind_eq_ok, pure_eq_ok, hsigned]
    constructor
    · rintro ⟨_, hr, m, rfl, rfl⟩
      rcases read_eq_some.mp hr with ⟨k, hk, hm⟩ | ⟨t, k, rfl, hk, hm⟩
      · obtain rfl : m = k := by omega
        cases hk with
        | decimal h hl => exact .inl ⟨m, h, hl, rfl⟩
        | hexadecimal hmarker h =>
          rcases hmarker with rfl | rfl
          · exact absurd rfl (hx _)
          · exact absurd rfl (hX _)
      · -- The inner sign leaves a number that is not negative.
        obtain ⟨rfl, rfl⟩ : k = 0 ∧ m = 0 := by omega
        refine .inr ⟨t, rfl, hk, ?_⟩
        cases negate <;> rfl
    · rintro (⟨m, h, hl, rfl⟩ | ⟨t, rfl, h, rfl⟩)
      · exact ⟨_, read_eq_some.mpr (.inl ⟨m, .decimal h hl, rfl⟩), m, rfl, rfl⟩
      · refine ⟨_, read_eq_some.mpr (.inr ⟨t, 0, rfl, h, rfl⟩), 0, rfl, ?_⟩
        cases negate <;> rfl

theorem afterMarker_eq_some {s : List Char} {n : Int} :
    afterMarker s = some n ↔
      (∃ m, Digits 16 s m ∧ n = m) ∨ ∃ t m, s = '-' :: t ∧ Digits 16 t m ∧ n = -(m : Int) := by
  unfold afterMarker
  split
  · rename_i t
    rw [hexadecimal_eq_some]
    constructor
    · rintro ⟨m, h, rfl⟩
      exact .inr ⟨t, m, rfl, h, rfl⟩
    · rintro (⟨m, h, -⟩ | ⟨u, m, hu, h, rfl⟩)
      · exact absurd h.head (by decide)
      · cases hu
        exact ⟨m, h, rfl⟩
  · rename_i hne
    rw [hexadecimal_eq_some]
    constructor
    · exact .inl
    · rintro (h | ⟨t, m, rfl, -⟩)
      · exact h
      · exact absurd rfl (hne t)

theorem spells_of_read {s : List Char} {n : Int} (h : read s = .ok (some n)) :
    Spells s n ∨ n = 0 ∧ SignedZero s := by
  have hmarked {x : Char} (hx : IsMarker x) {t : List Char} (h : afterMarker t = some n) :
      Spells (x :: t) n := by
    rcases afterMarker_eq_some.mp h with ⟨m, hm, rfl⟩ | ⟨u, m, rfl, hm, rfl⟩
    · exact .hexadecimal hx hm
    · exact .negativeHexadecimal hx hm
  have hfront {x : Char} (hx : IsMarker x) {t : List Char} (h : hexadecimal true t = some n) :
      Spells ('-' :: x :: t) n := by
    obtain ⟨m, hm, rfl⟩ := hexadecimal_eq_some.mp h
    exact .signInFront hx hm
  unfold read at h
  split at h
  · rcases decimal_eq_some.mp h with ⟨m, hm, -, rfl⟩ | ⟨t, rfl, hm, rfl⟩
    · exact .inl (.negativeDecimal hm)
    · refine .inr ⟨rfl, ?_⟩
      cases hm with
      | decimal hd =>
        obtain ⟨k, rfl⟩ := (digits_zero_iff (by decide)).mp hd
        exact .decimal k
      | hexadecimal hx hd =>
        obtain ⟨k, rfl⟩ := (digits_zero_iff (by decide)).mp hd
        exact .hexadecimal hx k
  · rename_i hne
    rcases decimal_eq_some.mp h with ⟨m, hm, -, rfl⟩ | ⟨t, rfl, -⟩
    · exact .inl (.decimal hm)
    · exact absurd rfl (hne t)
  · exact .inl (hfront (.inl rfl) (Except.ok.inj h))
  · exact .inl (hfront (.inr rfl) (Except.ok.inj h))
  · exact .inl (hmarked (.inl rfl) (Except.ok.inj h))
  · exact .inl (hmarked (.inr rfl) (Except.ok.inj h))
  · cases h

theorem length_le_of_not_overlong {token : String} (h : ∀ count, ¬Overlong token count)
    (signs : List Char) (hs : signs ∈ [[], ['-'], ['-', '-']]) {ds : List Char} {n : Nat}
    (hd : Digits 10 ds n) (ht : token.toList = '#' :: (signs ++ ds)) : ds.length ≤ maxDigits := by
  by_contra hl
  refine h ds.length ⟨signs, ds, hs, ⟨fun c hc => ?_, rfl, by omega⟩, ht⟩
  rw [digitValue?_eq (by decide), if_pos (hd.digit c hc)]
  rfl

theorem value?_of_spells {token : String} (h : ∀ count, ¬Overlong token count) {n : Int}
    (hn : Spells token.toList n ∨ n = 0 ∧ SignedZero token.toList) :
    value? token = .ok (some n) := by
  have hsign {base m : Nat} {s : List Char} (hb : base ≤ 16) (hd : Digits base s m) :
      ∀ t, s ≠ '-' :: t := by
    rintro t rfl
    have hplace : place '-' = 16 := by decide
    have := hd.head
    omega
  have hinFront {x : Char} (hx : IsMarker x) (t : List Char) :
      read ('-' :: x :: t) = .ok (hexadecimal true t) := by
    rcases hx with rfl | rfl <;> rfl
  have hmarked {x : Char} (hx : IsMarker x) (t : List Char) :
      read (x :: t) = .ok (afterMarker t) := by
    rcases hx with rfl | rfl <;> rfl
  unfold value?
  generalize ht : token.toList = s at hn
  rcases hn with hn | ⟨rfl, hn⟩
  · cases hn with
    | decimal hd =>
      have hl := length_le_of_not_overlong h [] (by simp) hd ht
      rw [read_decimal (hsign (by decide) hd), decimal_eq_some]
      exact .inl ⟨_, hd, hl, rfl⟩
    | negativeDecimal hd =>
      have hl := length_le_of_not_overlong h ['-'] (by simp) hd ht
      exact decimal_eq_some.mpr (.inl ⟨_, hd, hl, rfl⟩)
    | hexadecimal hx hd =>
      rw [hmarked hx, afterMarker_eq_some.mpr (.inl ⟨_, hd, rfl⟩)]
    | negativeHexadecimal hx hd =>
      rw [hmarked hx, afterMarker_eq_some.mpr (.inr ⟨_, _, rfl, hd, rfl⟩)]
    | signInFront hx hd =>
      rw [hinFront hx, hexadecimal_eq_some.mpr ⟨_, hd, rfl⟩]
      rfl
  · cases hn with
    | decimal k =>
      have hd : Digits 10 (List.replicate (k + 1) '0') 0 :=
        (digits_zero_iff (by decide)).mpr ⟨k, rfl⟩
      have hl := length_le_of_not_overlong h ['-', '-'] (by simp) hd ht
      exact decimal_eq_some.mpr (.inr ⟨_, rfl, .decimal hd hl, rfl⟩)
    | hexadecimal hx k =>
      have hd : Digits 16 (List.replicate (k + 1) '0') 0 :=
        (digits_zero_iff (by decide)).mpr ⟨k, rfl⟩
      exact decimal_eq_some.mpr (.inr ⟨_, rfl, .hexadecimal hx hd, rfl⟩)

theorem value?_eq_some {token : String} {n : Int} :
    value? token = .ok (some n) ↔
      (∀ count, ¬Overlong token count) ∧ (Spells token.toList n ∨ n = 0 ∧ SignedZero token.toList) := by
  refine ⟨fun h => ⟨fun count hl => ?_, spells_of_read h⟩, fun ⟨h, hn⟩ => value?_of_spells h hn⟩
  rw [value?_eq_error.mpr ⟨count, hl, rfl⟩] at h
  cases h

/-- Every token is read unless it has too many decimal digits. It is a literal if it is spelled like
one, and stands for the number that is spelled; and besides, zeros are read behind `#` and two minus
signs. -/
theorem value?_spelling (token : String) :
    (∀ f, value? token = .error f ↔ ∃ count, Overlong token count ∧ f = .numeralTooLong count) ∧
      ∀ n, value? token = .ok (some n) ↔ (∀ count, ¬Overlong token count) ∧
        (Spells token.toList n ∨ n = 0 ∧ SignedZero token.toList) :=
  ⟨fun _ => value?_eq_error, fun _ => value?_eq_some⟩

/-- Two minus signs are no spelling, not even of zero. -/
theorem value?_twoSigns :
    value? "#--0" = .ok (some 0) ∧ ∀ n, ¬Spells "#--0".toList n := by
  have hmark : ¬IsMarker '#' := by
    rintro (h | h) <;> cases h
  refine ⟨rfl, fun n h => ?_⟩
  change Spells ['#', '-', '-', '0'] n at h
  cases h with
  | decimal hd => exact absurd hd.head (by decide)
  | negativeDecimal hd => exact absurd hd.head (by decide)
  | hexadecimal hx => exact hmark hx
  | negativeHexadecimal hx => exact hmark hx

end Assembly.Literal

end LC3
