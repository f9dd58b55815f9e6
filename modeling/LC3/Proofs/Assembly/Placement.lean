import LC3.Assembly.Layout
import LC3.Proofs.Computation
import LC3.Proofs.SymbolTable

/-!
# Placement

What laying statements out comes to. `Statement.extent` is the number of words a statement takes up,
and `extent` that of a list. `placeAll_eq_ok` gives the address behind the last statement, and
`getElem?_placeAll` the whole symbol table: a name is bound to an address exactly if it was before,
or labels a statement with that many words in front of it.
-/

namespace LC3.Assembly

/-- The number of words of a statement; none if it has no size. -/
def Statement.extent (s : Statement) : Nat :=
  match s.size with
  | .ok n => n
  | .error _ => 0

/-- The number of words of statements. -/
def extent : List Statement → Nat
  | [] => 0
  | s :: ss => s.extent + extent ss

@[simp] theorem extent_nil : extent [] = 0 := rfl

@[simp] theorem extent_cons (s : Statement) (ss : List Statement) :
    extent (s :: ss) = s.extent + extent ss := rfl

theorem Statement.extent_eq {s : Statement} {n : Nat} (h : s.size = .ok n) : s.extent = n := by
  rw [extent, h]

/-! ## One statement -/

theorem bindLabel_eq_ok {symbols symbols' : SymbolTable} {address : Int} {name : String} :
    bindLabel symbols address name = .ok symbols' ↔
      address < memorySize ∧ (∀ b, symbols[name]? = some b → b = address) ∧
        symbols' = symbols.insert name address := by
  unfold bindLabel
  split
  · simp only [reduceCtorEq, false_iff]
    omega
  · rename_i hm
    have hm : address < memorySize := by omega
    split
    · rename_i hn
      simp [hm, hn, eq_comm]
    · rename_i b hb
      split
      · rename_i he
        subst he
        simp [hm, hb, SymbolTable.insert_eq_self hb, eq_comm]
      · rename_i hne
        simp [hb, hne]

theorem Statement.bind_iff {s : Statement} {symbols symbols' : SymbolTable} {address : Int} :
    s.bind symbols address = .ok symbols' ↔
      (s.label = none ∧ symbols' = symbols) ∨
        ∃ name, s.label = some name ∧ address < memorySize ∧
          (∀ b, symbols[name]? = some b → b = address) ∧
            symbols' = symbols.insert name address := by
  unfold bind
  cases s.label with
  | none => simp [eq_comm]
  | some name => simp [bindLabel_eq_ok]

theorem Statement.place_eq_ok {s : Statement} {symbols symbols' : SymbolTable}
    {address next : Int} :
    s.place symbols address = .ok (symbols', next) ↔
      s.bind symbols address = .ok symbols' ∧ s.size = .ok s.extent ∧
        next = address + s.extent ∧ next ≤ memorySize := by
  simp only [place, bind_eq_ok]
  constructor
  · rintro ⟨t, ht, n, hn, h⟩
    split at h
    · exact absurd h throw_ne_ok
    · rename_i hm
      simp only [pure_eq_ok, Prod.mk.injEq] at h
      obtain ⟨rfl, rfl⟩ := h
      rw [extent_eq hn]
      exact ⟨ht, hn, rfl, by omega⟩
  · rintro ⟨ht, hn, rfl, hm⟩
    refine ⟨symbols', ht, s.extent, hn, ?_⟩
    rw [if_neg (by omega)]
    rfl

theorem Statement.getElem?_bind {s : Statement} {symbols symbols' : SymbolTable} {address : Int}
    (h : s.bind symbols address = .ok symbols') {x : String} {v : Int} :
    symbols'[x]? = some v ↔ symbols[x]? = some v ∨ s.label = some x ∧ v = address := by
  rcases bind_iff.mp h with ⟨hl, rfl⟩ | ⟨name, hl, -, hb, rfl⟩
  · simp [hl]
  · rw [SymbolTable.getElem?_insert, hl]
    by_cases hx : name = x
    · subst hx
      rw [if_pos rfl]
      constructor
      · intro hv
        exact .inr ⟨rfl, (Option.some.inj hv).symm⟩
      · -- Bound before: binding it again was only allowed to the same address.
        rintro (hv | ⟨-, rfl⟩)
        · rw [hb v hv]
        · rfl
    · simp [hx]

/-! ## All statements -/

theorem placeAll_cons_eq_ok {s : Statement} {rest : List Statement} {symbols symbols' : SymbolTable}
    {address stop : Int} :
    placeAll symbols address (s :: rest) = .ok (symbols', stop) ↔
      ∃ t, s.bind symbols address = .ok t ∧ s.size = .ok s.extent ∧
        address + s.extent ≤ memorySize ∧
          placeAll t (address + s.extent) rest = .ok (symbols', stop) := by
  simp only [placeAll, bind_eq_ok, atLine_eq_ok, Prod.exists, Statement.place_eq_ok]
  constructor
  · rintro ⟨t, next, ⟨ht, hn, rfl, hm⟩, h⟩
    exact ⟨t, ht, hn, hm, h⟩
  · rintro ⟨t, ht, hn, hm, h⟩
    exact ⟨t, _, ⟨ht, hn, rfl, hm⟩, h⟩

theorem placeAll_eq_ok {ss : List Statement} {symbols symbols' : SymbolTable} {address stop : Int}
    (h : placeAll symbols address ss = .ok (symbols', stop)) :
    stop = address + extent ss ∧ ∀ s ∈ ss, s.size = .ok s.extent := by
  induction ss generalizing symbols address with
  | nil =>
    cases h
    exact ⟨by simp, by simp⟩
  | cons s rest ih =>
    obtain ⟨t, -, hs, -, hr⟩ := placeAll_cons_eq_ok.mp h
    obtain ⟨rfl, hall⟩ := ih hr
    refine ⟨by rw [extent_cons]; push_cast; omega, fun s' hs' => ?_⟩
    rcases List.mem_cons.mp hs' with rfl | hs'
    · exact hs
    · exact hall s' hs'

/-- A statement with this label has so many words in front of it. -/
def LabelAt (ss : List Statement) (x : String) (before : Nat) : Prop :=
  ∃ pre s post, ss = pre ++ s :: post ∧ s.label = some x ∧ before = extent pre

theorem labelAt_cons {s : Statement} {ss : List Statement} {x : String} {before : Nat} :
    LabelAt (s :: ss) x before ↔
      (s.label = some x ∧ before = 0) ∨ ∃ n, LabelAt ss x n ∧ before = s.extent + n := by
  constructor
  · rintro ⟨pre, s', post, hss, hl, rfl⟩
    cases pre with
    | nil =>
      obtain ⟨rfl, rfl⟩ := List.cons.inj hss
      exact .inl ⟨hl, rfl⟩
    | cons s₀ pre =>
      obtain ⟨rfl, rfl⟩ := List.cons.inj hss
      exact .inr ⟨extent pre, ⟨pre, s', post, rfl, hl, rfl⟩, rfl⟩
  · rintro (⟨hl, rfl⟩ | ⟨n, ⟨pre, s', post, rfl, hl, rfl⟩, rfl⟩)
    · exact ⟨[], s, ss, rfl, hl, rfl⟩
    · exact ⟨s :: pre, s', post, rfl, hl, rfl⟩

/-- The symbols after laying out: those from before, and every label at its address. -/
theorem getElem?_placeAll {ss : List Statement} {symbols symbols' : SymbolTable}
    {address stop : Int} (h : placeAll symbols address ss = .ok (symbols', stop)) {x : String}
    {v : Int} :
    symbols'[x]? = some v ↔
      symbols[x]? = some v ∨ ∃ n, LabelAt ss x n ∧ v = address + (n : Nat) := by
  -- The table and the address run along, since each statement may bind its label and moves on.
  induction ss generalizing symbols address with
  | nil =>
    cases h
    simp [LabelAt]
  | cons s rest ih =>
    obtain ⟨t, ht, -, -, hr⟩ := placeAll_cons_eq_ok.mp h
    rw [ih hr, s.getElem?_bind ht, or_assoc]
    refine or_congr_right ?_
    simp only [labelAt_cons]
    constructor
    · rintro (⟨hl, rfl⟩ | ⟨n, hn, rfl⟩)
      · exact ⟨0, .inl ⟨hl, rfl⟩, by simp⟩
      · exact ⟨_, .inr ⟨n, hn, rfl⟩, by push_cast; omega⟩
    · rintro ⟨n, ⟨hl, rfl⟩ | ⟨n, hn, rfl⟩, rfl⟩
      · exact .inl ⟨hl, by simp⟩
      · exact .inr ⟨n, hn, by push_cast; omega⟩

end LC3.Assembly
