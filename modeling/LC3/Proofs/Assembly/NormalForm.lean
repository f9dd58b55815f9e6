import LC3.Assembly
import LC3.Proofs.Assembly.Cutting

/-!
# The normal form of a source text

`render` writes token lines down again, with one blank between tokens and one line feed between
lines. Every text is tokenized like its normal form, the rendering of its own tokens
(`tokenize_render`), so nothing that the assembler says depends on how a source is laid out.

The words behind a quotation mark that was left open are the delicate part: put together again,
they must not close the string. They do not, because each of them leaves a string open, and a
backslash at the end of one takes the blank behind it, whatever it took before
(`closeQuote_append_eq_none`).
-/

namespace LC3.Assembly

/-- Token lines as a text. -/
def render (lines : List (List String)) : String :=
  "\n".intercalate (lines.map (" ".intercalate ·))

/-! ## Tokens with blanks between them -/

theorem intercalate_blank_cons (t : List Char) (ts : List (List Char)) :
    [' '].intercalate (t :: ts) = t ++ ts.flatMap (' ' :: ·) := by
  induction ts generalizing t with
  | nil => simp
  | cons u ts ih =>
    rw [List.intercalate_cons_cons, ih, List.flatMap_cons, List.append_assoc]
    rfl

theorem not_inWord_of_head?_flatMap {ts : List (List Char)} {c : Char}
    (hc : c ∈ (ts.flatMap (' ' :: ·)).head?) : inWord c = false := by
  cases ts with
  | nil => cases hc
  | cons t ts =>
    cases hc
    decide

theorem Cut.flatMap_blank {strings : Bool} {ts : List (List Char)}
    (h : Cut strings ([' '].intercalate ts) ts) : Cut strings (ts.flatMap (' ' :: ·)) ts := by
  cases ts with
  | nil => exact h
  | cons t ts =>
    rw [intercalate_blank_cons] at h
    exact h.separator (by decide)

/-! ## Strings that stay open -/

/-- A string stays open over two texts exactly if it does over each of them. The second text begins
with a character that may as well be behind a backslash. -/
theorem closeQuote_append_eq_none {s r : List Char} (hr : ∀ c ∈ r.head?, c ≠ '"' ∧ c ≠ '\\') :
    closeQuote (s ++ r) = none ↔ closeQuote s = none ∧ closeQuote r = none := by
  fun_induction closeQuote s with
  | case1 => simp
  | case2 s => simp [closeQuote]
  | case3 c s ih => simpa [closeQuote] using ih
  | case4 c s hq hb ih =>
    rcases eq_or_ne c '\\' with rfl | hb'
    · cases s with
      | cons d s => exact (hb d s rfl rfl).elim
      | nil =>
        -- The backslash ends the first text and takes the next character.
        cases r with
        | nil => simp [closeQuote]
        | cons d r =>
          obtain ⟨hdq, hdb⟩ := hr d rfl
          simp [closeQuote, closeQuote_plain hdq hdb]
    · rw [List.cons_append, closeQuote_plain hq hb', Option.map_eq_none_iff,
        Option.map_eq_none_iff]
      exact ih

/-- A character that ends a word neither closes a string nor takes another character into it. -/
theorem ne_mark_of_not_inWord {c : Char} (h : inWord c = false) : c ≠ '"' ∧ c ≠ '\\' := by
  constructor <;> rintro rfl <;> exact absurd h (by decide)

theorem closeQuote_separator {c : Char} (hc : isSeparator c = true) (s : List Char) :
    closeQuote (c :: s) = none ↔ closeQuote s = none := by
  obtain ⟨hq, hb⟩ := ne_mark_of_not_inWord (c := c) (by simp [inWord, hc])
  rw [closeQuote_plain hq hb, Option.map_eq_none_iff]

/-- A string stays open over a text exactly if it does over the word that the text begins with and
over what stands behind the word. -/
theorem closeQuote_span {s : List Char} :
    closeQuote s = none ↔
      closeQuote (s.takeWhile inWord) = none ∧ closeQuote (s.dropWhile inWord) = none := by
  conv_lhs => rw [← List.takeWhile_append_dropWhile (p := inWord) (l := s)]
  refine closeQuote_append_eq_none fun c hc => ne_mark_of_not_inWord ?_
  rw [Option.mem_def, ← List.find?_not_eq_head?_dropWhile] at hc
  simpa using List.find?_some hc

theorem closeQuote_of_mem_words {s t : List Char} (h : closeQuote s = none) (ht : t ∈ words s) :
    closeQuote t = none := by
  fun_induction words s with
  | case1 | case2 => cases ht
  | case3 c s hsemi hsep ih => exact ih ((closeQuote_separator hsep s).mp h) ht
  | case4 c s hsemi hsep ih =>
    have hword : inWord c = true := inWord_iff.mpr ⟨by simpa using hsep, hsemi⟩
    have hspan := closeQuote_span.mp h
    rw [List.takeWhile_cons_of_pos hword, List.dropWhile_cons_of_pos hword] at hspan
    rcases List.mem_cons.mp ht with rfl | ht
    · exact hspan.1
    · exact ih hspan.2 ht

theorem closeQuote_flatMap_blank {ts : List (List Char)} (h : ∀ t ∈ ts, closeQuote t = none) :
    closeQuote (ts.flatMap (' ' :: ·)) = none := by
  induction ts with
  | nil => rfl
  | cons t ts ih =>
    obtain ⟨ht, hts⟩ := List.forall_mem_cons.mp h
    rw [List.flatMap_cons, List.cons_append, closeQuote_separator (by decide),
      closeQuote_append_eq_none fun c hc => ne_mark_of_not_inWord (not_inWord_of_head?_flatMap hc)]
    exact ⟨ht, ih hts⟩

/-- The words behind a mark that is left open leave it open when they are put together again. -/
theorem leftOpen_intercalate {s : List Char} (h : LeftOpen s) :
    LeftOpen ([' '].intercalate (words s)) := by
  obtain ⟨s, rfl⟩ := List.head?_eq_some_iff.mp h.1
  rw [← closeQuote_eq_none, closeQuote_span] at h
  have hrest := closeQuote_flatMap_blank fun t ht => closeQuote_of_mem_words h.2 ht
  rw [words, if_neg (by decide), if_neg (by decide), intercalate_blank_cons, List.cons_append,
    ← closeQuote_eq_none, closeQuote_append_eq_none fun c hc =>
      ne_mark_of_not_inWord (not_inWord_of_head?_flatMap hc)]
  exact ⟨h.1, hrest⟩

/-! ## Lines -/

/-- The tokens of a line are cut again from the line that is put together from them. -/
theorem Cut.intercalate {strings : Bool} {line : List Char} {ts : List (List Char)}
    (h : Cut strings line ts) : Cut strings ([' '].intercalate ts) ts := by
  induction h with
  | @done strings gap comment hg hc => exact .nil strings
  | @word strings gap t rest ts hg ht hq hr h ih =>
    rw [intercalate_blank_cons]
    exact @Cut.word strings [] t _ ts (by simp) ht hq (fun _ => not_inWord_of_head?_flatMap)
      ih.flatMap_blank
  | @quoted gap t rest ts hg ht h ih =>
    rw [intercalate_blank_cons]
    exact @Cut.quoted [] t _ ts (by simp) ht ih.flatMap_blank
  | @leftOpen gap rest ts hg ho h ih =>
    have hopen : LeftOpen ([' '].intercalate ts) := by
      rw [h.eq_scan]
      exact leftOpen_intercalate ho
    exact @Cut.leftOpen [] _ ts (by simp) hopen ih

theorem Cut.isWord_or_isQuoted {strings : Bool} {line : List Char} {ts : List (List Char)}
    (h : Cut strings line ts) : ∀ t ∈ ts, IsWord t ∨ IsQuoted t := by
  induction h with
  | done => simp
  | word _ ht _ _ _ ih => exact List.forall_mem_cons.mpr ⟨.inl ht, ih⟩
  | quoted _ ht _ ih => exact List.forall_mem_cons.mpr ⟨.inr ht, ih⟩
  | leftOpen _ _ _ ih => exact ih

theorem getLast?_of_isWord_or_isQuoted {t : List Char} (h : IsWord t ∨ IsQuoted t) :
    t.getLast? ≠ some '\r' := by
  intro hlast
  rcases h with ⟨-, hw⟩ | ⟨body, rfl, items, -, rfl⟩
  · exact absurd (hw '\r' (List.mem_of_getLast? hlast)) (by decide)
  · rw [← List.cons_append, List.getLast?_concat, Option.some.injEq] at hlast
    exact absurd hlast (by decide)

theorem getLast?_append_ne {s r : List Char} {c : Char} (hs : s.getLast? ≠ some c)
    (hr : r.getLast? ≠ some c) : (s ++ r).getLast? ≠ some c := by
  rw [List.getLast?_append]
  cases h : r.getLast? with
  | none => exact hs
  | some d => rwa [h] at hr

theorem getLast?_intercalate {ts : List (List Char)} (h : ∀ t ∈ ts, t.getLast? ≠ some '\r') :
    ([' '].intercalate ts).getLast? ≠ some '\r' := by
  have hrest {ts : List (List Char)} (h : ∀ t ∈ ts, t.getLast? ≠ some '\r') :
      (ts.flatMap (' ' :: ·)).getLast? ≠ some '\r' := by
    induction ts with
    | nil => simp
    | cons t ts ih =>
      obtain ⟨ht, hts⟩ := List.forall_mem_cons.mp h
      exact getLast?_append_ne (getLast?_append_ne (s := [' ']) (by decide) ht) (ih hts)
  cases ts with
  | nil => simp
  | cons t ts =>
    obtain ⟨ht, hts⟩ := List.forall_mem_cons.mp h
    rw [intercalate_blank_cons]
    exact getLast?_append_ne ht (hrest hts)

theorem mem_intercalate {ts : List (List Char)} {c : Char} (h : c ∈ [' '].intercalate ts) :
    c = ' ' ∨ ∃ t ∈ ts, c ∈ t := by
  cases ts with
  | nil => cases h
  | cons t ts =>
    rw [intercalate_blank_cons, List.mem_append, List.mem_flatMap] at h
    rcases h with h | ⟨u, hu, h⟩
    · exact .inr ⟨t, List.mem_cons_self, h⟩
    · rcases List.mem_cons.mp h with rfl | h
      · exact .inl rfl
      · exact .inr ⟨u, List.mem_cons_of_mem t hu, h⟩

/-- A line that is put together from tokens of one line is one line, and does not run into the line
feed behind it. -/
theorem oneLine_intercalate {line : List Char} (h : '\n' ∉ line) :
    '\n' ∉ [' '].intercalate (lineTokens line) ∧
      ([' '].intercalate (lineTokens line)).getLast? ≠ some '\r' := by
  constructor
  · intro hmem
    obtain hblank | ⟨t, ht, hmem⟩ := mem_intercalate hmem
    · exact absurd hblank (by decide)
    · exact h ((isInfix_of_mem_lineTokens ht).subset hmem)
  · exact getLast?_intercalate fun t ht =>
      getLast?_of_isWord_or_isQuoted ((cut_lineTokens line).isWord_or_isQuoted t ht)

/-! ## Texts -/

theorem lines_intercalate {lines : List (List Char)} (hne : lines ≠ [])
    (h : ∀ line ∈ lines, '\n' ∉ line ∧ line.getLast? ≠ some '\r') :
    Lines (['\n'].intercalate lines) lines := by
  induction lines with
  | nil => exact absurd rfl hne
  | cons line lines ih =>
    obtain ⟨⟨hn, hr⟩, hlines⟩ := List.forall_mem_cons.mp h
    cases lines with
    | nil =>
      rw [List.intercalate_singleton]
      exact .last hn
    | cons next lines =>
      rw [List.intercalate_cons_cons, List.append_assoc]
      exact .feed hn hr (ih (List.cons_ne_nil _ _) hlines)

theorem Lines.not_mem {s : List Char} {lines : List (List Char)} (h : Lines s lines) :
    lines ≠ [] ∧ ∀ line ∈ lines, '\n' ∉ line := by
  induction h with
  | last h => simpa using h
  | feed h _ _ ih => exact ⟨List.cons_ne_nil _ _, List.forall_mem_cons.mpr ⟨h, ih.2⟩⟩
  | returnFeed h _ ih => exact ⟨List.cons_ne_nil _ _, List.forall_mem_cons.mpr ⟨h, ih.2⟩⟩

theorem toList_render (lines : List (List (List Char))) :
    (render (lines.map (List.map String.ofList))).toList =
      ['\n'].intercalate (lines.map [' '].intercalate) := by
  have hline (ts : List (List Char)) :
      (" ".intercalate (ts.map String.ofList)).toList = [' '].intercalate ts := by
    rw [String.toList_intercalate, map_toList_eq_iff.mpr rfl]
    rfl
  rw [render, String.toList_intercalate, List.map_map, List.map_map]
  exact congrArg _ (List.map_congr_left fun ts _ => hline ts)

/-- A text is tokenized like its normal form, and so it is assembled like it, with the same
diagnostics. -/
theorem tokenize_render (text : String) :
    tokenize (render (tokenize text)) = tokenize text ∧
      assemble (render (tokenize text)) = assemble text := by
  have htokens : tokenize (render (tokenize text)) = tokenize text := by
    have htext : tokenize text =
        ((splitLines text.toList).map lineTokens).map (List.map String.ofList) := by
      rw [List.map_map]
      rfl
    obtain ⟨hne, hn⟩ := (lines_splitLines text.toList).not_mem
    have hlines : splitLines (render (tokenize text)).toList =
        (splitLines text.toList).map fun line => [' '].intercalate (lineTokens line) := by
      rw [htext, toList_render, List.map_map]
      refine (lines_intercalate (by simpa using hne) fun l hl => ?_).eq_splitLines.symm
      obtain ⟨line, hline, rfl⟩ := List.mem_map.mp hl
      exact oneLine_intercalate (hn line hline)
    rw [tokenize, hlines, List.map_map]
    refine List.map_congr_left fun line _ => ?_
    rw [Function.comp, ← cut_iff.mp (cut_lineTokens line).intercalate]
  exact ⟨htokens, by rw [assemble, assemble, htokens]⟩

end LC3.Assembly
