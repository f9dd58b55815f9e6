import LC3.Image.Format
import LC3.Proofs.Numeral
import Mathlib.Data.List.TakeWhile
import Mathlib.Tactic.Ring

/-!
# Digits in groups

A text image is a row of digits that is cut into groups of one width. `lastDigits` gives the digits
of a number in a fixed width, `groups_flatten` undoes the row, and `programOfRaw_of_clean` shows
that reading a text without comments and strange characters depends on its digits alone.
-/

namespace LC3.Numeral

/-! ## Numerals of a fixed width -/

/-- The last `width` digits of a number. -/
def lastDigits (base : Nat) : Nat → Nat → List Char
  | 0, _ => []
  | width + 1, n => lastDigits base width (n / base) ++ [(n % base).digitChar.toUpper]

theorem length_lastDigits (base width n : Nat) : (lastDigits base width n).length = width := by
  induction width generalizing n with
  | zero => rfl
  | succ width ih => rw [lastDigits, List.length_append, ih, List.length_singleton]

theorem lastDigits_zero (base width : Nat) :
    lastDigits base width 0 = List.replicate width '0' := by
  induction width with
  | zero => rfl
  | succ width ih =>
    rw [lastDigits, Nat.zero_div, ih, Nat.zero_mod, List.replicate_succ']
    rfl

theorem leftpad_append (width : Nat) (s : List Char) (c : Char) :
    List.leftpad (width + 1) '0' (s ++ [c]) = List.leftpad width '0' s ++ [c] := by
  simp only [List.leftpad, List.length_append, List.length_singleton, Nat.add_sub_add_right,
    List.append_assoc]

theorem leftpad_digits {base width n : Nat} (hb : 1 < base) (hw : 0 < width)
    (hn : n < base ^ width) : List.leftpad width '0' (digits base n) = lastDigits base width n := by
  induction width generalizing n with
  | zero => cases hw
  | succ width ih =>
    unfold digits
    rw [Nat.toDigits_eq_if hb]
    split
    · rename_i hlt
      rw [lastDigits, Nat.div_eq_of_lt hlt, Nat.mod_eq_of_lt hlt, lastDigits_zero]
      simp [List.leftpad]
    · rename_i hge
      have hdiv : n / base < base ^ width := by
        rw [Nat.div_lt_iff_lt_mul (by omega), ← Nat.pow_succ]
        exact hn
      have hpos : 0 < width := by
        rcases width with _ | width
        · rw [Nat.zero_add, Nat.pow_one] at hn
          omega
        · omega
      rw [List.map_append, List.map_singleton, leftpad_append, lastDigits, ← ih hpos hdiv]
      rfl

theorem padded_eq {base width : Nat} {n : Int} (hb : 1 < base) (hw : 0 < width) (h : 0 ≤ n)
    (hn : n < base ^ width) :
    (padded base width n).toList = lastDigits base width n.toNat := by
  have hlt : n.toNat < base ^ width := (Int.toNat_lt h).mpr (by exact_mod_cast hn)
  rw [padded, if_neg (by omega), String.toList_ofList, show n.natAbs = n.toNat by omega,
    leftpad_digits hb hw hlt]

theorem mem_lastDigits {base width n : Nat} (hb : 0 < base) {c : Char}
    (hc : c ∈ lastDigits base width n) : ∃ d < base, c = d.digitChar.toUpper := by
  induction width generalizing n with
  | zero => cases hc
  | succ width ih =>
    rw [lastDigits, List.mem_append, List.mem_singleton] at hc
    rcases hc with hc | rfl
    · exact ih hc
    · exact ⟨_, Nat.mod_lt n hb, rfl⟩

theorem valueOf_lastDigits {base : Nat} (h1 : 1 < base) (h16 : base ≤ 16) (width n : Nat) :
    valueOf base ((lastDigits base width n).filterMap (digitValue? base)) = n % base ^ width := by
  induction width generalizing n with
  | zero => rw [Nat.pow_zero, Nat.mod_one]; rfl
  | succ width ih =>
    have hd := digitValue?_digitChar h16 (Nat.mod_lt n (by omega : 0 < base))
    rw [lastDigits, List.filterMap_append, List.filterMap_cons_some hd, List.filterMap_nil,
      valueOf_append, ih, Nat.pow_succ', Nat.mod_mul, Nat.add_comm]

theorem valueOf_append_list (base : Nat) (ds es : List Nat) :
    valueOf base (ds ++ es) = valueOf base ds * base ^ es.length + valueOf base es := by
  induction es generalizing ds with
  | nil => simp [valueOf]
  | cons e es ih =>
    have hone : valueOf base (e :: es) = e * base ^ es.length + valueOf base es := by
      have := ih [e]
      simpa [valueOf] using this
    rw [List.append_cons, ih, valueOf_append, hone, List.length_cons, Nat.pow_succ]
    ring

end LC3.Numeral

namespace LC3.Image

open Numeral

/-! ## Groups -/

section Groups

variable {α : Type}

theorem groups_append {n : Nat} {l : List α} (h : l.length = n) (hn : 0 < n) (s : List α) :
    groups n (l ++ s) = l :: groups n s := by
  obtain ⟨a, l, rfl⟩ := List.exists_cons_of_length_pos (h ▸ hn)
  have hl : l.length = n - 1 := by rw [← h]; rfl
  rw [List.cons_append, groups, ← hl, List.take_left, List.drop_left]

theorem groups_flatten {n : Nat} (hn : 0 < n) {ls : List (List α)}
    (h : ∀ l ∈ ls, l.length = n) : groups n ls.flatten = ls := by
  induction ls with
  | nil => rw [List.flatten_nil, groups]
  | cons l ls ih =>
    rw [List.flatten_cons, groups_append (h l (by simp)) hn, ih fun l' hl => h l' (by simp [hl])]

theorem length_flatten {n : Nat} {ls : List (List α)} (h : ∀ l ∈ ls, l.length = n) :
    ls.flatten.length = n * ls.length := by
  induction ls with
  | nil => rfl
  | cons l ls ih =>
    rw [List.flatten_cons, List.length_append, h l (by simp), ih fun l' hl => h l' (by simp [hl]),
      List.length_cons, Nat.mul_succ, Nat.add_comm]

/-- Groups that are `k` times as wide are made of `k` groups each. -/
theorem groups_mul_flatten {n k : Nat} (hn : 0 < n) (hk : 0 < k) {ls : List (List α)}
    (h : ∀ l ∈ ls, l.length = n) (hdvd : ls.length % k = 0) :
    groups (n * k) ls.flatten = (groups k ls).map List.flatten := by
  induction hlen : ls.length using Nat.strongRecOn generalizing ls with
  | _ m ih =>
    subst hlen
    rcases Nat.lt_or_ge ls.length k with hlt | hge
    · rw [Nat.mod_eq_of_lt hlt] at hdvd
      rw [List.eq_nil_of_length_eq_zero hdvd, List.flatten_nil, groups, groups, List.map_nil]
    · obtain ⟨g, rest, rfl, hg⟩ : ∃ g rest, ls = g ++ rest ∧ g.length = k :=
        ⟨ls.take k, ls.drop k, (List.take_append_drop k ls).symm, by simpa using hge⟩
      have hgl : g.flatten.length = n * k := by
        rw [length_flatten fun l hl => h l (by simp [hl]), hg]
      have hrest : rest.length % k = 0 := by
        rwa [List.length_append, hg, Nat.add_mod_left] at hdvd
      rw [List.flatten_append, groups_append hgl (Nat.mul_pos hn hk), groups_append hg hk,
        List.map_cons, ih rest.length (by simp; omega) (fun l hl => h l (by simp [hl])) hrest rfl]

theorem groups_map {β : Type} (f : α → β) (n : Nat) (s : List α) :
    groups n (s.map f) = (groups n s).map (List.map f) := by
  fun_induction groups n s with
  | case1 => rw [List.map_nil, groups, List.map_nil]
  | case2 a s ih =>
    rw [List.map_cons, groups, ← List.map_take, ← List.map_drop, ih, List.map_cons, List.map_cons]

theorem flatten_groups (n : Nat) (s : List α) : (groups n s).flatten = s := by
  fun_induction groups n s with
  | case1 => rfl
  | case2 a s ih => rw [List.flatten_cons, ih, List.cons_append, List.take_append_drop]

theorem length_groups {n : Nat} (hn : 0 < n) {s : List α} (h : s.length % n = 0) :
    n * (groups n s).length = s.length := by
  induction hlen : s.length using Nat.strongRecOn generalizing s with
  | _ m ih =>
    subst hlen
    rcases Nat.lt_or_ge s.length n with hlt | hge
    · rw [Nat.mod_eq_of_lt hlt] at h
      rw [List.eq_nil_of_length_eq_zero h, groups, List.length_nil, List.length_nil, Nat.mul_zero]
    · obtain ⟨g, rest, rfl, hg⟩ : ∃ g rest, s = g ++ rest ∧ g.length = n :=
        ⟨s.take n, s.drop n, (List.take_append_drop n s).symm, by simpa using hge⟩
      rw [List.length_append, hg, Nat.add_mod_left] at h
      rw [groups_append hg hn, List.length_cons, Nat.mul_succ,
        ih rest.length (by simp; omega) h rfl, List.length_append, hg, Nat.add_comm]

theorem length_of_mem_groups {n : Nat} (hn : 0 < n) {s g : List α} (h : n ∣ s.length)
    (hg : g ∈ groups n s) : g.length = n := by
  fun_induction groups n s with
  | case1 => cases hg
  | case2 a s ih =>
    rw [List.length_cons] at h
    have hle := Nat.le_of_dvd (Nat.succ_pos _) h
    rcases List.mem_cons.mp hg with rfl | hg
    · rw [List.length_cons, List.length_take]
      omega
    · refine ih ?_ hg
      have hdrop : (s.drop (n - 1)).length = s.length + 1 - n := by
        rw [List.length_drop]
        omega
      rw [hdrop]
      exact Nat.dvd_sub h (Nat.dvd_refl n)

end Groups

/-! ## Clean texts -/

/-- The outcome of reading digits. -/
def ofDigits (ds : List Char) : Except RawFlaw Program :=
  if ds.length % (baseOf ds).wordDigits ≠ 0 then .error (.length ds.length (baseOf ds))
  else
    match programOf ((groups (baseOf ds).wordDigits ds).map (groupValue (baseOf ds))) with
    | some p => .ok p
    | none => .error .empty

theorem dropComment_of_clean {line : List Char} (h : ∀ c ∈ line, isRawChar c = true) :
    dropComment line = line := by
  have hne : isRawChar ';' = false := by decide
  refine List.takeWhile_eq_self_iff.mpr fun c hc => ?_
  have := h c hc
  rcases eq_or_ne c ';' with rfl | hc
  · rw [hne] at this
    cases this
  · exact decide_eq_true hc

theorem findBadChar_eq_none {lines : List (List Char)} {k : Nat} :
    findBadChar k lines = none ↔ ∀ line ∈ lines, ∀ c ∈ line, isRawChar c = true := by
  induction lines generalizing k with
  | nil => simp [findBadChar]
  | cons line lines ih =>
    have hline : line.find? (!isRawChar ·) = none ↔ ∀ c ∈ line, isRawChar c = true := by
      simp [List.find?_eq_none]
    rw [findBadChar, List.forall_mem_cons, ← hline, ← ih (k := k + 1)]
    cases line.find? (!isRawChar ·) <;> simp

theorem splitOn_flatten (mark : Char) (s : List Char) :
    (Text.splitOn mark s).flatten = s.filter (· ≠ mark) := by
  induction s with
  | nil => rfl
  | cons c s ih =>
    unfold Text.splitOn
    split
    · rename_i hc
      rw [List.flatten_cons, ih, List.nil_append, List.filter_cons_of_neg (by simp [hc])]
    · rename_i hc
      rw [List.filter_cons_of_pos (by simp [hc]), ← ih]
      split
      · rename_i he
        rw [he]
        rfl
      · rename_i he
        rw [he]
        rfl

/-- Reading lines without strange characters depends on their digits alone. -/
theorem programOfRaw_of_lines {text : String} {lines : List (List Char)}
    (hl : (rawLines text.toList).map dropComment = lines)
    (h : ∀ line ∈ lines, ∀ c ∈ line, isRawChar c = true) :
    programOfRaw text = ofDigits (lines.flatten.filter (!Text.isBlank ·)) := by
  unfold programOfRaw
  dsimp only
  rewrite [hl, findBadChar_eq_none.mpr h]
  rfl

/-- A text without comments and strange characters is read by its digits, wherever its lines end. -/
theorem programOfRaw_of_clean {text : String} (h : ∀ c ∈ text.toList, isRawChar c = true) :
    programOfRaw text = ofDigits (text.toList.filter (!Text.isBlank ·)) := by
  have hflat := splitOn_flatten '\n' text.toList
  have hclean : ∀ line ∈ rawLines text.toList, ∀ c ∈ line, isRawChar c = true := by
    intro line hline c hc
    have hm : c ∈ (Text.splitOn '\n' text.toList).flatten := List.mem_flatten.mpr ⟨line, hline, hc⟩
    rw [hflat, List.mem_filter] at hm
    exact h c hm.1
  have hlines : (rawLines text.toList).map dropComment = rawLines text.toList :=
    (List.map_congr_left fun line hline => dropComment_of_clean (hclean line hline)).trans
      (List.map_id _)
  have hdigits : (rawLines text.toList).flatten.filter (!Text.isBlank ·) =
      text.toList.filter (!Text.isBlank ·) := by
    have hlf : Text.isBlank '\n' = true := by decide
    rw [rawLines, hflat, List.filter_filter]
    refine List.filter_congr fun c _ => ?_
    rcases eq_or_ne c '\n' with rfl | hc
    · rw [hlf]
      rfl
    · simp [hc]
  rw [programOfRaw_of_lines hlines hclean, hdigits]

/-! ## Outcomes -/

theorem programOf_eq_some {words : List Int} {p : Program} :
    programOf words = some p ↔ words = wordsOf p ∧ p.symbols = ∅ := by
  cases words with
  | nil => simp [programOf, wordsOf]
  | cons orig code =>
    obtain ⟨o, c, symbols⟩ := p
    simp [programOf, wordsOf, eq_comm, and_assoc]

theorem readRaw_of_ok {text : String} {p : Program} (h : programOfRaw text = .ok p) :
    readRaw text = .success p := by
  rw [readRaw, h]

theorem readRaw_of_error {text : String} {flaw : RawFlaw} (h : programOfRaw text = .error flaw) :
    readRaw text = .failure flaw.message := by
  rw [readRaw, h]

/-! ## Rows of words -/

theorem digit_isRawChar {d : Nat} (hd : d < 16) :
    isRawChar d.digitChar.toUpper = true ∧ Text.isBlank d.digitChar.toUpper = false := by
  interval_cases d <;> decide

theorem Base.limits (b : Base) :
    1 < b.radix ∧ b.radix ≤ 16 ∧ 0 < b.wordDigits ∧ b.radix ^ b.wordDigits = memorySize := by
  cases b <;> decide

theorem ofDigits_flatten {gs : List (List Char)} {p : Program}
    (hlen : ∀ g ∈ gs, g.length = (baseOf gs.flatten).wordDigits)
    (hp : programOf (gs.map (groupValue (baseOf gs.flatten))) = some p) :
    ofDigits gs.flatten = .ok p := by
  obtain ⟨-, -, hpos, -⟩ := (baseOf gs.flatten).limits
  have hdvd : gs.flatten.length % (baseOf gs.flatten).wordDigits = 0 := by
    rw [length_flatten hlen, Nat.mul_mod_right]
  unfold ofDigits
  rw [if_neg (not_not.mpr hdvd), groups_flatten hpos hlen, hp]

theorem groupValue_lastDigits (b : Base) {w : Int} (h : 0 ≤ w ∧ w < memorySize) :
    groupValue b (lastDigits b.radix b.wordDigits w.toNat) = w := by
  obtain ⟨h1, h16, -, hsize⟩ := b.limits
  rw [groupValue, valueOf_lastDigits h1 h16, hsize, Nat.mod_eq_of_lt (by omega),
    Int.toNat_of_nonneg h.1]

section Rows

variable {ws : List Int} (b : Base) (h : ∀ w ∈ ws, 0 ≤ w ∧ w < memorySize)
include h

theorem programOfRaw_padded :
    programOfRaw (lines (padded b.radix b.wordDigits) ws) =
      ofDigits (ws.map fun w => lastDigits b.radix b.wordDigits w.toNat).flatten := by
  obtain ⟨h1, h16, hpos, hsize⟩ := b.limits
  have hpadded {w : Int} (hw : w ∈ ws) : (padded b.radix b.wordDigits w).toList =
      lastDigits b.radix b.wordDigits w.toNat :=
    padded_eq h1 hpos (h w hw).1 (by exact_mod_cast hsize ▸ (h w hw).2)
  have htext : (lines (padded b.radix b.wordDigits) ws).toList =
      (ws.map fun w => lastDigits b.radix b.wordDigits w.toNat ++ ['\n']).flatten := by
    rw [lines, String.toList_join, List.flatMap_def, List.map_map]
    refine congrArg List.flatten (List.map_congr_left fun w hw => ?_)
    rw [Function.comp, String.toList_append, hpadded hw]
    rfl
  have hdigit {w : Int} {c : Char} (hc : c ∈ lastDigits b.radix b.wordDigits w.toNat) :
      isRawChar c = true ∧ Text.isBlank c = false := by
    obtain ⟨d, hd, rfl⟩ := mem_lastDigits (by omega) hc
    exact digit_isRawChar (by omega)
  have hlf : isRawChar '\n' = true ∧ Text.isBlank '\n' = true := by decide
  rw [programOfRaw_of_clean]
  · rw [htext, List.filter_flatten, List.map_map]
    refine congrArg (ofDigits ∘ List.flatten) (List.map_congr_left fun w _ => ?_)
    have hkeep : (lastDigits b.radix b.wordDigits w.toNat).filter (!Text.isBlank ·) =
        lastDigits b.radix b.wordDigits w.toNat :=
      List.filter_eq_self.mpr fun c hc => by simp [(hdigit hc).2]
    rw [Function.comp, List.filter_append, hkeep, List.filter_cons_of_neg (by simp [hlf.2]),
      List.filter_nil, List.append_nil]
  · intro c hc
    rw [htext, List.mem_flatten] at hc
    obtain ⟨l, hl, hc⟩ := hc
    obtain ⟨w, -, rfl⟩ := List.mem_map.mp hl
    rcases List.mem_append.mp hc with hc | hc
    · exact (hdigit hc).1
    · rw [List.mem_singleton.mp hc]
      exact hlf.1

/-- Words are read back from their digits if these are taken for digits of the right base. -/
theorem ofDigits_lastDigits {p : Program}
    (hb : baseOf (ws.map fun w => lastDigits b.radix b.wordDigits w.toNat).flatten = b)
    (hp : programOf ws = some p) :
    ofDigits (ws.map fun w => lastDigits b.radix b.wordDigits w.toNat).flatten = .ok p := by
  refine ofDigits_flatten ?_ ?_
  · simp [hb, length_lastDigits]
  · have hval : (ws.map fun w => lastDigits b.radix b.wordDigits w.toNat).map (groupValue b) =
        ws := by
      rw [List.map_map]
      exact (List.map_congr_left fun w hw => groupValue_lastDigits b (h w hw)).trans (List.map_id _)
    rw [hb, hval, hp]

end Rows

end LC3.Image
