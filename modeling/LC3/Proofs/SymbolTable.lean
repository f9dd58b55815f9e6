import LC3.SymbolTable

/-!
# Laws of symbol tables

Looking names up after a binding, among a selection of symbols, and by their addresses. Of several
names for a cell the least is shown (`nameOf?_eq_some`); `primary` keeps the shown ones alone.
-/

namespace LC3.SymbolTable

variable {t : SymbolTable} {name x : String} {a v : Int}

theorem getElem?_insert (t : SymbolTable) (name x : String) (a : Int) :
    (t.insert name a)[x]? = if name = x then some a else t[x]? := by
  rw [Std.ExtTreeMap.getElem?_insert]
  by_cases h : name = x <;> simp [h]

theorem insert_eq_self (h : t[name]? = some a) : t.insert name a = t := by
  apply Std.ExtTreeMap.ext_getElem?
  intro x
  rw [getElem?_insert]
  split
  · rename_i hx
    rw [← hx, h]
  · rfl

theorem getElem?_filter {f : String → Int → Bool} :
    (t.filter f)[x]? = some v ↔ t[x]? = some v ∧ f x v = true := by
  rw [Std.ExtTreeMap.getElem?_filter', Option.filter_eq_some_iff]

theorem mem_bindings : (x, v) ∈ t.bindings ↔ t[x]? = some v :=
  Std.ExtTreeMap.mem_toList_iff_getElem?_eq_some

theorem foldl_insert (l : List (String × Int)) (t : SymbolTable) :
    l.foldl (fun u b => u.insert b.1 b.2) t = t.insertMany l := by
  induction l generalizing t with
  | nil => exact Std.ExtTreeMap.insertMany_nil.symm
  | cons b l ih => rw [List.foldl_cons, ih, Std.ExtTreeMap.insertMany_cons]

theorem getElem?_override (s t : SymbolTable) (x : String) :
    (s.override t)[x]? = t[x]?.or s[x]? := by
  rw [override, foldl_insert]
  cases h : t[x]? with
  | some v =>
    exact Std.ExtTreeMap.getElem?_insertMany_list_of_mem Std.ReflCmp.compare_self
      Std.ExtTreeMap.distinct_keys_toList (mem_bindings.mpr h)
  | none =>
    rw [Std.ExtTreeMap.getElem?_insertMany_list_of_contains_eq_false, Option.none_or]
    rw [Bool.eq_false_iff, Ne, List.contains_iff_mem, List.mem_map]
    rintro ⟨⟨_, v⟩, hv, rfl⟩
    rw [mem_bindings, h] at hv
    cases hv

theorem getElem?_of_nameOf? {w : Word} (h : t.nameOf? w = some x) :
    ∃ v, t[x]? = some v ∧ Word.ofInt v = w := by
  obtain ⟨⟨y, v⟩, hf, rfl⟩ := Option.map_eq_some_iff.mp h
  exact ⟨v, mem_bindings.mp (List.mem_of_find?_eq_some hf), by simpa using List.find?_some hf⟩

theorem nameOf?_eq_none {w : Word} (h : t.nameOf? w = none) (hx : t[x]? = some v) :
    Word.ofInt v ≠ w := by
  rw [nameOf?, Option.map_eq_none_iff, List.find?_eq_none] at h
  simpa using h (x, v) (mem_bindings.mpr hx)

/-- The bindings are ordered by name, so that the first one found for a cell has the least. -/
theorem nameOf?_eq_some {w : Word} :
    t.nameOf? w = some x ↔
      ∃ v, t[x]? = some v ∧ Word.ofInt v = w ∧
        ∀ (y : String) (u : Int), t[y]? = some u → Word.ofInt u = w → x ≤ y := by
  have hleast {y : String} (h : t.nameOf? w = some y) :
      ∀ (z : String) (u : Int), t[z]? = some u → Word.ofInt u = w → y ≤ z := by
    obtain ⟨⟨_, v⟩, hf, rfl⟩ := Option.map_eq_some_iff.mp h
    obtain ⟨-, before, after, hl, hbefore⟩ := List.find?_eq_some_iff_append.mp hf
    have hsorted : t.bindings.Pairwise fun b c => compare b.1 c.1 = .lt :=
      Std.ExtTreeMap.ordered_keys_toList
    intro z u hz hu
    have hmem := mem_bindings.mpr hz
    rw [hl] at hsorted hmem
    rcases List.mem_append.mp hmem with hm | hm
    · have hne := hbefore (z, u) hm
      simp [hu] at hne
    · rcases List.mem_cons.mp hm with hm | hm
      · cases hm
        exact String.le_refl _
      · have hlt := (List.pairwise_cons.mp (List.pairwise_append.mp hsorted).2.1).1 (z, u) hm
        exact Std.le_of_lt (compareOfLessAndEq_eq_lt.mp hlt)
  constructor
  · intro h
    obtain ⟨v, hv, he⟩ := getElem?_of_nameOf? h
    exact ⟨v, hv, he, hleast h⟩
  · rintro ⟨v, hv, he, hle⟩
    cases hn : t.nameOf? w with
    | none => exact absurd he (nameOf?_eq_none hn hv)
    | some y =>
      obtain ⟨u, hu, he'⟩ := getElem?_of_nameOf? hn
      rw [String.le_antisymm (hleast hn x v hv he) (hle y u hu he')]

/-! ## One name for each cell -/

/-- The symbols under whose names their cells are shown. -/
def primary (t : SymbolTable) : SymbolTable :=
  t.filter fun name a => t.nameOf? (Word.ofInt a) = some name

theorem getElem?_primary :
    t.primary[x]? = some v ↔ t[x]? = some v ∧ t.nameOf? (Word.ofInt v) = some x := by
  rw [primary, getElem?_filter, decide_eq_true_eq]

theorem nameOf?_primary (t : SymbolTable) (w : Word) : t.primary.nameOf? w = t.nameOf? w := by
  apply Option.ext
  intro x
  constructor
  · intro h
    obtain ⟨v, hv, rfl⟩ := getElem?_of_nameOf? h
    exact (getElem?_primary.mp hv).2
  · intro h
    obtain ⟨v, hv, rfl, hle⟩ := nameOf?_eq_some.mp h
    refine nameOf?_eq_some.mpr ⟨v, getElem?_primary.mpr ⟨hv, h⟩, rfl, fun y u hy hu => ?_⟩
    exact hle y u (getElem?_primary.mp hy).1 hu

end LC3.SymbolTable
