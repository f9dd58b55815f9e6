import LC3.Proofs.Assembly.Emission
import LC3.Proofs.Listing.Encoding

/-!
# The rows of a source text

A row is a word with the label of its cell, if it has one. Its text shows its tokens (`shows_row`),
rows are read as statements (`statements_rows`) and laid out one word each (`placeAll_rows`), every
label stands at the cell that it names (`labelAt_rowStatements`), and the rows are encoded as their
words (`encodeAll_rows`).
-/

namespace LC3.Listing

open Assembly

/-! ## Texts -/

/-- The tokens of the row of a word at an address. -/
def row (labels : SymbolTable) (a w : Int) : List String :=
  (labels.nameOf? (Word.ofInt a)).toList ++
    tokens (wordCommand labels (Word.ofInt a) (Word.ofInt w))

theorem plain_of_isLabelName {s : String} (h : isLabelName s = true) : Plain s := by
  simp only [isLabelName, Bool.and_eq_true, List.all_eq_true, isLabelChar, Bool.or_eq_true,
    decide_eq_true_eq] at h
  obtain ⟨⟨⟨⟨hne, hall⟩, -⟩, -⟩, -⟩ := h
  refine ⟨by simpa using hne, List.all_eq_true.mpr fun c hc => ?_⟩
  rcases hall c hc with hc | hc <;> simp [isPlainChar, hc]

theorem le_foldr_max {l : List Nat} {n : Nat} (h : n ∈ l) : n ≤ l.foldr max 0 := by
  induction l with
  | nil => cases h
  | cons m l ih =>
    rcases List.mem_cons.mp h with rfl | h
    · exact Nat.le_max_left _ _
    · exact (ih h).trans (Nat.le_max_right _ _)

/-- The column of labels has room for a blank behind each of them. -/
theorem length_lt_labelWidth {labels : SymbolTable} {w : Word} {name : String}
    (h : labels.nameOf? w = some name) : name.length < Program.labelWidth labels := by
  obtain ⟨v, hv, rfl⟩ := SymbolTable.getElem?_of_nameOf? h
  refine Nat.lt_succ_of_le (le_foldr_max (List.mem_map.mpr ⟨(name, v), ?_, rfl⟩))
  exact List.mem_filter.mpr ⟨SymbolTable.mem_bindings.mpr hv, by simpa using h⟩

theorem shows_column_empty (width : Nat) {text : String} {ts : List String} (h : Shows text ts) :
    Shows (column width "" ++ text) ts := by
  have hc : column width "" = String.ofList (List.replicate width ' ') := by
    simp [column, List.rightpad]
  rw [hc]
  exact h.blanks width

theorem shows_column {width : Nat} {name text : String} {ts : List String} (hn : Plain name)
    (hw : name.length < width) (h : Shows text ts) :
    Shows (column width name ++ text) (name :: ts) := by
  obtain ⟨k, rfl⟩ := Nat.exists_eq_add_of_lt hw
  have hc : column (name.length + k + 1) name =
      name ++ String.ofList (List.replicate (k + 1) ' ') := by
    have hk : name.length + k + 1 - name.toList.length = k + 1 := by
      rw [String.length_toList]
      omega
    rw [← String.toList_inj, column, List.rightpad, hk]
    simp
  rw [hc, String.append_assoc]
  refine (h.blanks (k + 1)).word hn ?_
  rw [String.toList_append, String.toList_ofList, List.replicate_succ]
  simp +decide

theorem shows_row {labels : SymbolTable} (hl : AreLabels labels) {a : Int} (h0 : 0 ≤ a)
    (ha : a < memorySize) (w : Int) :
    Shows (column (Program.labelWidth labels) (Program.labelAt labels a) ++
      word labels (some (Word.ofInt a)) (Word.ofInt w)) (row labels a w) := by
  have hplain : ∀ name v, labels[name]? = some v → Plain name := fun name v hv =>
    plain_of_isLabelName (hl.isLabelName name v hv)
  have hw := shows_word hplain (Word.ofInt a) (Word.ofInt w)
  rw [Program.labelAt, if_pos ⟨h0, ha⟩, row]
  cases hn : labels.nameOf? (Word.ofInt a) with
  | none => exact shows_column_empty _ hw
  | some name =>
    obtain ⟨v, hv, -⟩ := SymbolTable.getElem?_of_nameOf? hn
    exact shows_column (hplain name v hv) (length_lt_labelWidth hn) hw

/-! ## Statements -/

/-- The rows of words from an address on. -/
def rows (labels : SymbolTable) : Int → List Int → List (List String)
  | _, [] => []
  | a, w :: ws => row labels a w :: rows labels (a + 1) ws

/-- The statement of the row of a word at an address. -/
def rowStatement (labels : SymbolTable) (line : Nat) (a w : Int) : Statement where
  line := line
  label := labels.nameOf? (Word.ofInt a)
  command := some (wordCommand labels (Word.ofInt a) (Word.ofInt w))

/-- The statements of rows, of which the first stands on the line of this number. -/
def rowStatements (labels : SymbolTable) : Nat → Int → List Int → List Statement
  | _, _, [] => []
  | line, a, w :: ws => rowStatement labels line a w :: rowStatements labels (line + 1) (a + 1) ws

theorem statements_row {labels : SymbolTable} (hl : AreLabels labels) (line : Nat) (a w : Int)
    (lines : List (List String)) :
    statements line (row labels a w :: lines) =
      (return (← statements (line + 1) lines).cons (rowStatement labels line a w)) := by
  have he := isEntry_wordCommand labels (Word.ofInt a) (Word.ofInt w)
  rw [row, rowStatement]
  cases hn : labels.nameOf? (Word.ofInt a) with
  | none =>
    rw [Option.toList_none, List.nil_append, tokens, statements, if_neg (by simp [he.isEnd]),
      if_pos he.isCommand]
  | some name =>
    obtain ⟨v, hv, -⟩ := SymbolTable.getElem?_of_nameOf? hn
    have hname := hl.isLabelName name v hv
    have hend := isEnd_of_isLabelName hname
    have hhead := head?_of_isLabelName hname
    rw [Option.toList_some, List.singleton_append, tokens, statements, if_neg (by simp [hend]),
      if_neg (by simp [hl.isCommand name v hv]), if_neg hhead, if_pos hname, afterLabel?,
      if_neg (by simp [he.isEnd])]

/-- Rows are read as their statements, up to the end of the text. -/
theorem statements_rows {labels : SymbolTable} (hl : AreLabels labels) (line : Nat) (a : Int)
    (ws : List Int) {lines : List (List String)} {b : Body}
    (h : statements (line + ws.length) lines = .ok b) :
    statements line (rows labels a ws ++ lines) =
      .ok { b with statements := rowStatements labels line a ws ++ b.statements } := by
  induction ws generalizing line a with
  | nil => exact h
  | cons w ws ih =>
    have hline : line + (w :: ws).length = line + 1 + ws.length := by
      rw [List.length_cons]
      omega
    rw [hline] at h
    rw [rows, List.cons_append, statements_row hl, ih (line + 1) (a + 1) h]
    rfl

/-! ## Placement -/

theorem size_rowStatement (labels : SymbolTable) (line : Nat) (a w : Int) :
    (rowStatement labels line a w).size = .ok 1 := by
  have he := isEntry_wordCommand labels (Word.ofInt a) (Word.ofInt w)
  rw [Statement.size, rowStatement]
  simp only [he.reservation]
  rfl

theorem getElem?_of_nameOf? {labels : SymbolTable} (hl : AreLabels labels) {a : Int} (h0 : 0 ≤ a)
    (ha : a < memorySize) {name : String} (h : labels.nameOf? (Word.ofInt a) = some name) :
    labels[name]? = some a := by
  obtain ⟨v, hv, he⟩ := SymbolTable.getElem?_of_nameOf? h
  have hr := hl.range name v hv
  have hm : (memorySize : Int) = 0x10000 := rfl
  rwa [ofInt_inj_of_near he (by omega) (by omega)] at hv

theorem bind_rowStatement {labels : SymbolTable} (hl : AreLabels labels) (line : Nat) {a : Int}
    (h0 : 0 ≤ a) (ha : a < memorySize) (w : Int) {t : SymbolTable}
    (ht : ∀ (name : String) (v : Int), t[name]? = some v → labels[name]? = some v) :
    ∃ t', (rowStatement labels line a w).bind t a = .ok t' := by
  simp only [Statement.bind_iff, rowStatement]
  cases hn : labels.nameOf? (Word.ofInt a) with
  | none => exact ⟨t, .inl ⟨rfl, rfl⟩⟩
  | some name =>
    refine ⟨t.insert name a, .inr ⟨name, rfl, ha, fun b hb => ?_, rfl⟩⟩
    exact Option.some.inj ((ht name b hb).symm.trans (getElem?_of_nameOf? hl h0 ha hn))

theorem placeAll_rows {labels : SymbolTable} (hl : AreLabels labels) (line : Nat) {a : Int}
    (h0 : 0 ≤ a) (ws : List Int) (ha : a + ws.length ≤ memorySize) {t : SymbolTable}
    (ht : ∀ (name : String) (v : Int), t[name]? = some v → labels[name]? = some v) :
    ∃ table, placeAll t a (rowStatements labels line a ws) = .ok (table, a + ws.length) := by
  -- On the words, with the table kept within the labels: so no row can meet another address for
  -- its label.
  induction ws generalizing line a t with
  | nil =>
    refine ⟨t, ?_⟩
    simp [rowStatements, placeAll]
  | cons w ws ih =>
    have hlen : ((w :: ws).length : Int) = ws.length + 1 := by simp
    have hlt : a < memorySize := by omega
    obtain ⟨t', hb⟩ := bind_rowStatement hl line h0 hlt w ht
    have hsize := size_rowStatement labels line a w
    have hext := Statement.extent_eq hsize
    have ht' : ∀ (name : String) (v : Int), t'[name]? = some v → labels[name]? = some v := by
      intro name v hv
      rcases (Statement.getElem?_bind hb).mp hv with hv | ⟨hn, rfl⟩
      · exact ht name v hv
      · exact getElem?_of_nameOf? hl h0 hlt hn
    obtain ⟨table, hp⟩ := ih (line + 1) (show 0 ≤ a + 1 by omega) (by omega) ht'
    refine ⟨table, placeAll_cons_eq_ok.mpr ⟨t', hb, by rw [hsize, hext], by omega, ?_⟩⟩
    rw [hext, hlen]
    refine hp.trans ?_
    congr 2
    omega

/-- Every row stands at the cell that its label names. -/
theorem labelAt_rowStatements {labels : SymbolTable} {line : Nat} {a : Int} {ws : List Int}
    {x : String} {n : Nat} :
    LabelAt (rowStatements labels line a ws) x n ↔
      n < ws.length ∧ labels.nameOf? (Word.ofInt (a + n)) = some x := by
  induction ws generalizing line a n with
  | nil => simp [rowStatements, LabelAt]
  | cons w ws ih =>
    have hext := Statement.extent_eq (size_rowStatement labels line a w)
    rw [rowStatements, labelAt_cons, hext, List.length_cons]
    cases n with
    | zero =>
      rw [Nat.cast_zero, Int.add_zero]
      constructor
      · rintro (⟨hn, -⟩ | ⟨n, -, h⟩)
        · exact ⟨by omega, hn⟩
        · omega
      · rintro ⟨-, hn⟩
        exact .inl ⟨hn, rfl⟩
    | succ n =>
      have hshift : a + ((n + 1 : Nat) : Int) = a + 1 + n := by omega
      rw [hshift]
      constructor
      · rintro (⟨-, h⟩ | ⟨k, hk, h⟩)
        · omega
        · obtain rfl : k = n := by omega
          obtain ⟨hlt, hn⟩ := ih.mp hk
          exact ⟨by omega, hn⟩
      · rintro ⟨hlt, hn⟩
        exact .inr ⟨n, ih.mpr ⟨by omega, hn⟩, by omega⟩

/-! ## Encoding -/

/-- Rows are encoded as their words, unless one shows a label for a target outside memory. -/
theorem encodeAll_rows {table labels : SymbolTable} (hl : Resolves table labels) (line : Nat)
    (a : Int) (ws : List Int) {us : List Word} :
    encodeAll table a (rowStatements labels line a ws) = .ok us ↔
      us = ws.map Word.ofInt ∧ ∀ (i : Nat) (w : Int), ws[i]? = some w →
        ∀ d, (decode (Word.ofInt w)).reach? = some d → ¬Wraps labels (a + i + 1 + d) := by
  induction ws generalizing line a us with
  | nil => simp [rowStatements, encodeAll, eq_comm]
  | cons w ws ih =>
    have hshift (i : Nat) : a + 1 + i + 1 = a + ((i + 1 : Nat) : Int) + 1 := by omega
    rw [rowStatements, encodeAll_cons_eq_ok]
    constructor
    · rintro ⟨u, vs, hu, hvs, rfl⟩
      obtain ⟨rfl, hw⟩ := (words_wordCommand hl a (Word.ofInt w)).mp hu
      obtain ⟨rfl, hrest⟩ := (ih (line + 1) (a + 1)).mp hvs
      refine ⟨rfl, fun i w' hi d hd => ?_⟩
      cases i with
      | zero =>
        obtain rfl := Option.some.inj hi
        rw [Nat.cast_zero, Int.add_zero]
        exact hw d hd
      | succ i =>
        rw [← hshift]
        exact hrest i w' hi d hd
    · rintro ⟨rfl, h⟩
      have hu := (words_wordCommand hl a (Word.ofInt w)).mpr ⟨rfl, fun d hd => by
        have h0 := h 0 w rfl d hd
        rwa [Nat.cast_zero, Int.add_zero] at h0⟩
      refine ⟨_, _, hu, (ih (line + 1) (a + 1)).mpr ⟨rfl, fun i w' hi d hd => ?_⟩, rfl⟩
      rw [hshift]
      exact h (i + 1) w' hi d hd

end LC3.Listing
