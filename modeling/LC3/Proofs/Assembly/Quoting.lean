import LC3.Proofs.Assembly.Cutting
import LC3.Proofs.Assembly.Grammar
import LC3.Proofs.Assembly.Spelling
import LC3.Proofs.Outcome

/-!
# Strings and their literals

`StringLiteral.Item` says how single characters stand in a string literal, and `decode_eq_ok` reads
literals as sequences of items. Every text has a literal, `encode`, which the tokenizer leaves in
one piece; `assemble_stringSource` follows it through the assembler to the words of a program.
-/

namespace LC3.Assembly

namespace StringLiteral

/-! ## Items -/

/-- What stands in a string literal for a character. -/
inductive Item : List Char → Char → Prop where
  | plain {c : Char} (hq : c ≠ '"') (hb : c ≠ '\\') : Item [c] c
  | null : Item ['\\', '0'] '\x00'
  | lineFeed : Item ['\\', 'n'] '\n'
  | carriageReturn : Item ['\\', 'r'] '\r'
  | quotationMark : Item ['\\', '"'] '"'
  | backslash : Item ['\\', '\\'] '\\'

theorem item_escape {e c : Char} (h : escaped? e = some c) : Item ['\\', e] c := by
  unfold escaped? at h
  split at h <;> cases h
  · exact .null
  · exact .lineFeed
  · exact .carriageReturn
  · exact .quotationMark
  · exact .backslash

theorem Item.plain_or_escape {i : List Char} {c : Char} (h : Item i c) :
    (i = [c] ∧ c ≠ '"' ∧ c ≠ '\\') ∨ ∃ e, i = ['\\', e] ∧ escaped? e = some c := by
  cases h with
  | plain hq hb => exact .inl ⟨rfl, hq, hb⟩
  | _ => exact .inr ⟨_, rfl, rfl⟩

theorem decodeBody_plain {c : Char} (hq : c ≠ '"') (hb : c ≠ '\\') (position : Nat)
    (t : List Char) :
    decodeBody position (c :: t) = (do return c :: (← decodeBody (position + 1) t)) := by
  rw [decodeBody]
  · exact hq
  · exact fun h _ => absurd h hb
  · exact fun _ _ h => absurd h hb

theorem decodeBody_escape {e c : Char} (he : escaped? e = some c) (position : Nat) (t : List Char) :
    decodeBody position ('\\' :: e :: t) = (do return c :: (← decodeBody (position + 2) t)) := by
  rw [decodeBody, he]

theorem decodeBody_eq_ok {position : Nat} {t s : List Char} :
    decodeBody position t = .ok s ↔ ∃ items, List.Forall₂ Item items s ∧ t = items.flatten := by
  constructor
  · intro h
    fun_induction decodeBody position t generalizing s with
    | case1 =>
      cases h
      exact ⟨[], .nil, rfl⟩
    | case2 | case3 | case4 => cases h
    | case5 position e t c he ih =>
      simp only [bind_eq_ok, pure_eq_ok] at h
      obtain ⟨s, hs, rfl⟩ := h
      obtain ⟨items, hi, rfl⟩ := ih hs
      exact ⟨['\\', e] :: items, .cons (item_escape he) hi, rfl⟩
    | case6 position c t hq hlast hpair ih =>
      simp only [bind_eq_ok, pure_eq_ok] at h
      obtain ⟨s, hs, rfl⟩ := h
      have hb : c ≠ '\\' := by
        rintro rfl
        cases t with
        | nil => exact hlast rfl rfl
        | cons d t => exact hpair d t rfl rfl
      obtain ⟨items, hi, rfl⟩ := ih hs
      exact ⟨[c] :: items, .cons (.plain hq hb) hi, rfl⟩
  · rintro ⟨items, hi, rfl⟩
    induction hi generalizing position with
    | nil => rfl
    | @cons i c items s hi _ ih =>
      rcases hi.plain_or_escape with ⟨rfl, hq, hb⟩ | ⟨e, rfl, he⟩
      · exact (decodeBody_plain hq hb position _).trans (congrArg (· >>= _) ih)
      · exact (decodeBody_escape he position _).trans (congrArg (· >>= _) ih)

theorem getLast?_marks (t : List Char) (c : Char) : ('"' :: (t ++ [c])).getLast? = some c := by
  rw [← List.cons_append, List.getLast?_concat]

theorem decode_marks (t : List Char) : decode ('"' :: (t ++ ['"'])) = decodeBody 1 t := by
  rw [decode, if_neg (by simp), if_pos ⟨rfl, getLast?_marks t '"'⟩]
  simp

/-- The marks are two, so that a single one is no literal. -/
theorem exists_marks {token s : List Char} (h : decode token = .ok s) :
    ∃ t, token = '"' :: (t ++ ['"']) := by
  unfold decode at h
  split at h
  · cases h
  · rename_i hlen
    split at h
    · rename_i hm
      obtain ⟨hhead, hend⟩ := hm
      obtain ⟨u, rfl⟩ := List.head?_eq_some_iff.mp hhead
      cases u using List.reverseRecOn with
      | nil => simp at hlen
      | append_singleton t c =>
        rw [getLast?_marks, Option.some.injEq] at hend
        exact ⟨t, by rw [hend]⟩
    · cases h

/-- A string literal is a sequence of items between quotation marks, and stands for their
characters. -/
theorem decode_eq_ok {token s : List Char} :
    decode token = .ok s ↔
      ∃ items, List.Forall₂ Item items s ∧ token = '"' :: (items.flatten ++ ['"']) := by
  constructor
  · intro h
    obtain ⟨t, rfl⟩ := exists_marks h
    rw [decode_marks] at h
    obtain ⟨items, hi, rfl⟩ := decodeBody_eq_ok.mp h
    exact ⟨items, hi, rfl⟩
  · rintro ⟨items, hi, rfl⟩
    rw [decode_marks]
    exact decodeBody_eq_ok.mpr ⟨items, hi, rfl⟩

/-! ## Writing -/

/-- How a character is written in a string literal. -/
def written : Char → List Char
  | '\x00' => ['\\', '0']
  | '\n' => ['\\', 'n']
  | '\r' => ['\\', 'r']
  | '"' => ['\\', '"']
  | '\\' => ['\\', '\\']
  | c => [c]

/-- A string literal for a text. -/
def encode (s : String) : String :=
  String.ofList ('"' :: ((s.toList.map written).flatten ++ ['"']))

theorem item_written (c : Char) : Item (written c) c := by
  unfold written
  split
  · exact .null
  · exact .lineFeed
  · exact .carriageReturn
  · exact .quotationMark
  · exact .backslash
  · exact .plain ‹_› ‹_›

theorem decode_encode (s : String) : decode (encode s).toList = .ok s.toList := by
  refine decode_eq_ok.mpr ⟨s.toList.map written, ?_, by rw [encode, String.toList_ofList]⟩
  rw [List.forall₂_map_left_iff]
  exact List.forall₂_same.mpr fun c _ => item_written c

theorem shows_encode (s : String) : Shows (encode s) [encode s] := by
  have hline (c : Char) : ∀ d ∈ written c, d ≠ '\n' ∧ d ≠ '\r' := by
    unfold written
    split
    case h_6 hn hr _ _ => simpa using ⟨hn, hr⟩
    all_goals simp
  have hitem (c : Char) : IsItem (written c) := by
    rcases (item_written c).plain_or_escape with ⟨hw, hq, hb⟩ | ⟨e, hw, -⟩
    · exact hw ▸ .plain hq hb
    · exact hw ▸ .pair e
  have hclose : Closes ((s.toList.map written).flatten ++ ['"']) :=
    ⟨s.toList.map written, List.forall_mem_map.mpr fun c _ => hitem c, rfl⟩
  have hbody := closeQuote_eq_some.mpr ⟨List.append_nil _, hclose⟩
  refine ⟨?_, ?_⟩
  · rw [OneLine, encode, String.toList_ofList, List.all_cons, List.all_append, List.all_flatten,
      List.all_map]
    simpa using fun c _ => hline c
  · rw [encode, String.toList_ofList, lineTokens_quoted hbody]
    simp [lineTokens]

end StringLiteral

/-! ## Programs -/

theorem isPlainChar_of_digits {base n : Nat} {ds : List Char} (hb : base ≤ 16)
    (h : Numeral.Digits base ds n) : ds.all isPlainChar = true := by
  refine List.all_eq_true.mpr fun c hc => ?_
  have hv := Numeral.digitValue?_eq hb c
  rw [if_pos (h.digit c hc)] at hv
  simp [isPlainChar, Numeral.isAlphanum_of_digitValue? hv]

theorem isPlainChar_of_isMarker {x : Char} (h : Numeral.IsMarker x) : isPlainChar x = true := by
  rcases h with rfl | rfl <;> decide

theorem Literal.plain_of_value? {token : String} {n : Int}
    (h : Literal.value? token = .ok (some n)) : Plain token := by
  have hcons {c : Char} {t : List Char} (hc : isPlainChar c = true)
      (ht : t.all isPlainChar = true) : c :: t ≠ [] ∧ (c :: t).all isPlainChar = true :=
    ⟨List.cons_ne_nil c t, by rw [List.all_cons, hc, ht]; rfl⟩
  have hsharp : isPlainChar '#' = true := by decide
  have hminus : isPlainChar '-' = true := by decide
  have hzeros (k : Nat) : (List.replicate (k + 1) '0').all isPlainChar = true :=
    have hd : Numeral.Digits 10 (List.replicate (k + 1) '0') 0 :=
      (Numeral.digits_zero_iff (by decide)).mpr ⟨k, rfl⟩
    isPlainChar_of_digits (by decide) hd
  have hchars : token.toList ≠ [] ∧ token.toList.all isPlainChar = true := by
    obtain ⟨-, hs⟩ := value?_eq_some.mp h
    generalize token.toList = t at hs
    rcases hs with hs | ⟨-, hs⟩
    · cases hs with
      | decimal hd => exact hcons hsharp (isPlainChar_of_digits (by decide) hd)
      | negativeDecimal hd =>
        exact hcons hsharp (hcons hminus (isPlainChar_of_digits (by decide) hd)).2
      | hexadecimal hx hd =>
        exact hcons (isPlainChar_of_isMarker hx) (isPlainChar_of_digits (by decide) hd)
      | negativeHexadecimal hx hd =>
        exact hcons (isPlainChar_of_isMarker hx)
          (hcons hminus (isPlainChar_of_digits (by decide) hd)).2
      | signInFront hx hd =>
        exact hcons hminus
          (hcons (isPlainChar_of_isMarker hx) (isPlainChar_of_digits (by decide) hd)).2
    · cases hs with
      | decimal k => exact hcons hsharp (hcons hminus (hcons hminus (hzeros k)).2).2
      | hexadecimal hx k =>
        exact hcons hsharp
          (hcons hminus (hcons hminus (hcons (isPlainChar_of_isMarker hx) (hzeros k)).2).2).2
  exact ⟨by simpa using hchars.1, hchars.2⟩

theorem tokenize_oneLine {line : String} {tokens : List String} (h : Shows line tokens) :
    tokenize line = [tokens] := by
  have hfeed : '\n' ∉ line.toList := fun hc => by
    have := List.all_eq_true.mp h.oneLine '\n' hc
    simp at this
  rw [tokenize, ← (Lines.last hfeed).eq_splitLines, List.map_singleton, h.tokens]

/-- A program of one string: its origin, the string, and the end. -/
def stringSource (origin s : String) : String :=
  "\n".intercalate [".ORIG " ++ origin, ".STRINGZ " ++ StringLiteral.encode s, ".END"]

/-- The codes of the characters, as far as words hold them. -/
def wrappedCodes (s : String) : List Int :=
  s.toList.map fun c => ((c.toNat % 0x10000 : Nat) : Int)

section

variable {origin : String} {o : Int} (h : Literal.value? origin = .ok (some o)) (s : String)

include h in
theorem tokenize_stringSource :
    tokenize (stringSource origin s) =
      [[".ORIG", origin], [".STRINGZ", StringLiteral.encode s], [".END"]] := by
  have hline {start name operand : String} (hs : start = name ++ " ") (hn : Plain name)
      (ho : Shows operand [operand]) : Shows (start ++ operand) [name, operand] := by
    rw [hs, String.append_assoc]
    exact ho.blank.word hn (by simp +decide)
  have horigin : Shows (".ORIG " ++ origin) [".ORIG", origin] :=
    hline (by decide) (by decide) (.plain (Literal.plain_of_value? h))
  have hstring : Shows (".STRINGZ " ++ StringLiteral.encode s)
      [".STRINGZ", StringLiteral.encode s] :=
    hline (by decide) (by decide) (StringLiteral.shows_encode s)
  rw [stringSource, String.intercalate_cons_cons, String.intercalate_cons_cons,
    String.intercalate_singleton, horigin.tokenize_cons, hstring.tokenize_cons,
    tokenize_oneLine (.plain (by decide))]

theorem stands_stringz {symbols : SymbolTable} {a : Int} (s : String) :
    Stands symbols a ".STRINGZ" [StringLiteral.encode s] (stringWords s) := by
  have h : Stands symbols a ".STRINGZ" [StringLiteral.encode s]
      (stringWords (String.ofList s.toList)) := .string (by decide) (StringLiteral.decode_encode s)
  rwa [String.ofList_toList] at h

theorem toNat_stringWords :
    (stringWords s).map (fun w => (w.toNat : Int)) = wrappedCodes s ++ [0] := by
  simp [stringWords, wrappedCodes]

variable (hr : 0 ≤ o ∧ o ≤ 0xFFFF)

include h hr

theorem assemble_stringSource_of_fits (hfit : o + s.length + 1 ≤ 0x10000) :
    assemble (stringSource origin s) = .ok (.success ⟨o, wrappedCodes s ++ [0], ∅⟩) := by
  rw [assemble_eq_success, tokenize_stringSource h, program_iff, ← toNat_stringWords]
  have hlines : ProgramLines ∅ o [[".STRINGZ", StringLiteral.encode s], [".END"]] []
      (stringWords s ++ []) := .command (stands_stringz s) (.stop (by decide))
  rw [List.append_nil] at hlines
  refine @Means.intro [] _ _ _ _ _ _ _ (by simp) (by decide) h hr hlines (by simp) (by simp) ?_
  rw [length_stringWords]
  push_cast
  omega

theorem program_stringSource_of_overflow (hover : 0x10000 < o + s.length + 1) :
    program (tokenize (stringSource origin s)) =
      .error ⟨2, .pastMemory (o + s.length + 1)⟩ := by
  rw [tokenize_stringSource h]
  let command : Command := ⟨".STRINGZ", [StringLiteral.encode s]⟩
  have horigin : findOrigin [[".ORIG", origin], [".STRINGZ", StringLiteral.encode s], [".END"]] =
      .ok ⟨o, 1⟩ :=
    findOrigin_eq_ok.mpr ⟨[], ".ORIG", origin, _, rfl, by simp, rfl, by decide, h, hr⟩
  have hbody : bodyFrom [[".ORIG", origin], [".STRINGZ", StringLiteral.encode s], [".END"]] 1 =
      .ok ⟨[⟨2, none, some command⟩], true⟩ := rfl
  have hwords : Statement.words ⟨2, none, some command⟩ ∅ o = .ok (stringWords s) :=
    Command.words_eq_ok.mpr (stands_stringz s)
  have hsize := Statement.size_of_words hwords
  have hplace : Statement.place ⟨2, none, some command⟩ ∅ o =
      .error (.pastMemory (o + s.length + 1)) := by
    refine bind_eq_error.mpr (.inr ⟨_, rfl, bind_eq_error.mpr (.inr ⟨_, hsize, ?_⟩)⟩)
    have hnext : o + ((stringWords s).length : Int) = o + s.length + 1 := by
      rw [length_stringWords]
      omega
    simp only [hnext]
    exact if_pos hover
  have hlayout : layout [[".ORIG", origin], [".STRINGZ", StringLiteral.encode s], [".END"]] o 1 =
      .error ⟨2, .pastMemory (o + s.length + 1)⟩ := by
    refine bind_eq_error.mpr (.inr ⟨_, hbody, bind_eq_error.mpr (.inl ?_)⟩)
    exact bind_eq_error.mpr (.inl (atLine_eq_error.mpr ⟨_, hplace, rfl⟩))
  exact bind_eq_error.mpr (.inr ⟨_, horigin, bind_eq_error.mpr (.inl hlayout)⟩)

theorem assemble_stringSource_of_overflow (hover : 0x10000 < o + s.length + 1) :
    ∃ message, assemble (stringSource origin s) = .ok (.failure message) ∧
      Outcome.lineNumber message = .ok (some 2) := by
  obtain ⟨wording, hw⟩ : ∃ wording, (Cause.pastMemory (o + s.length + 1)).message = .ok wording :=
    ⟨_, rfl⟩
  refine ⟨s!"Line {2}: " ++ wording, ?_,
    Outcome.lineNumber_line (Numeral.lt_maxDigits (n := 2) (by decide)) wording⟩
  rw [assemble, program_stringSource_of_overflow h s hr hover]
  simp only [Diagnostic.message, hw]
  rfl

end

/-- String literals are the sequences of items between quotation marks. What a text is written as is
one, and comes back as words wherever these fit into memory behind the origin; anywhere else the line
of the string is refused. -/
theorem quoting_faithful :
    (∀ token s : String, stringValue token = .ok s ↔ ∃ items,
      List.Forall₂ StringLiteral.Item items s.toList ∧
        token.toList = '"' :: (items.flatten ++ ['"'])) ∧
    ∀ (origin : String) (o : Int) (s : String), Literal.value? origin = .ok (some o) →
      0 ≤ o ∧ o ≤ 0xFFFF →
        (o + s.length + 1 ≤ 0x10000 →
          assemble (stringSource origin s) = .ok (.success ⟨o, wrappedCodes s ++ [0], ∅⟩)) ∧
        (0x10000 < o + s.length + 1 →
          ∃ message, assemble (stringSource origin s) = .ok (.failure message) ∧
            Outcome.lineNumber message = .ok (some 2)) := by
  constructor
  · intro token s
    rw [← StringLiteral.decode_eq_ok, stringValue_eq_ok]
    constructor
    · rintro ⟨cs, hcs, rfl⟩
      rwa [String.toList_ofList]
    · intro hs
      exact ⟨s.toList, hs, (String.ofList_toList).symm⟩
  · intro origin o s h hr
    exact ⟨assemble_stringSource_of_fits h s hr, assemble_stringSource_of_overflow h s hr⟩

/-- Three characters up to the last cell of memory, and one more. -/
theorem quoting_faithful_end :
    assemble (stringSource "xFFFC" "\\\";") =
        .ok (.success ⟨0xFFFC, wrappedCodes "\\\";" ++ [0], ∅⟩) ∧
      ∃ message, assemble (stringSource "xFFFC" "\\\";\n") = .ok (.failure message) ∧
        Outcome.lineNumber message = .ok (some 2) := by
  have h : Literal.value? "xFFFC" = .ok (some 0xFFFC) := rfl
  have hr : (0 : Int) ≤ 0xFFFC ∧ (0xFFFC : Int) ≤ 0xFFFF := by decide
  exact ⟨(quoting_faithful.2 _ _ _ h hr).1 (by decide), (quoting_faithful.2 _ _ _ h hr).2 (by decide)⟩

end LC3.Assembly
