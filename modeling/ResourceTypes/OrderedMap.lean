/-! # Ordered maps

A finite map whose entries are listed with strictly increasing keys, so that two maps with
the same entries are equal. `insert` replaces the value of a key that is present. The view is
`get?`; `get?_insert` is its law, and `entries` gives the order in which a map is listed.
`OrderedSet` is the map to the one-element type.

Keys are compared by their `Ord` instance, an order in the sense of `Std.TransOrd`. The laws ask
for `Std.LawfulEqOrd`, that only equal keys compare as equal. -/

namespace ResourceTypes

namespace KeyOrder

export Ord (compare)

theorem ne_of_lt {κ : Type} [Ord κ] [Std.ReflOrd κ] {a b : κ} (h : compare a b = .lt) : a ≠ b := by
  rintro rfl; rw [Std.compare_self] at h; cases h

end KeyOrder

/-- Entries sorted by key, each key once. -/
structure OrderedMap (κ ν : Type) [Ord κ] where
  entries : List (κ × ν)
  increasing : entries.Pairwise fun a b => compare a.1 b.1 = .lt

namespace OrderedMap

variable {κ ν : Type} [Ord κ]

@[ext] theorem ext {m n : OrderedMap κ ν} (h : m.entries = n.entries) : m = n := by
  cases m; cases n; cases h; rfl

/-- The map without entries. -/
def empty : OrderedMap κ ν := ⟨[], .nil⟩

instance : Inhabited (OrderedMap κ ν) := ⟨empty⟩

instance [DecidableEq κ] [DecidableEq ν] : DecidableEq (OrderedMap κ ν) := fun m n =>
  decidable_of_iff (m.entries = n.entries) ⟨ext, fun h => h ▸ rfl⟩

/-- Puts an entry at its place in a sorted list. -/
def insertEntry (k : κ) (v : ν) : List (κ × ν) → List (κ × ν)
  | [] => [(k, v)]
  | e :: rest =>
    match compare k e.1 with
    | .lt => (k, v) :: e :: rest
    | .eq => (k, v) :: rest
    | .gt => e :: insertEntry k v rest

theorem mem_insertEntry {k : κ} {v : ν} {l : List (κ × ν)} {e : κ × ν}
    (h : e ∈ insertEntry k v l) : e = (k, v) ∨ e ∈ l := by
  induction l with
  | nil => simpa [insertEntry] using h
  | cons a l ih =>
    simp only [insertEntry] at h
    split at h
    · simpa using h
    · rcases List.mem_cons.1 h with h | h
      · exact .inl h
      · exact .inr (List.mem_cons_of_mem _ h)
    · rcases List.mem_cons.1 h with h | h
      · exact .inr (h ▸ List.mem_cons_self)
      · exact (ih h).imp_right (List.mem_cons_of_mem _)

theorem increasing_insertEntry [Std.TransOrd κ] {k : κ} {v : ν} {l : List (κ × ν)}
    (h : l.Pairwise fun a b => compare a.1 b.1 = .lt) :
    (insertEntry k v l).Pairwise fun a b => compare a.1 b.1 = .lt := by
  induction l with
  | nil => simp [insertEntry]
  | cons a l ih =>
    obtain ⟨ha, hl⟩ := List.pairwise_cons.1 h
    simp only [insertEntry]
    split
    next hk =>
      refine List.pairwise_cons.2 ⟨fun b hb => ?_, h⟩
      rcases List.mem_cons.1 hb with rfl | hb
      · exact hk
      · exact Std.TransCmp.lt_trans hk (ha b hb)
    next hk =>
      exact List.pairwise_cons.2 ⟨fun b hb => Std.TransCmp.lt_of_eq_of_lt hk (ha b hb), hl⟩
    next hk =>
      refine List.pairwise_cons.2 ⟨fun b hb => ?_, ih hl⟩
      rcases mem_insertEntry hb with rfl | hb
      · exact Std.OrientedCmp.gt_iff_lt.1 hk
      · exact ha b hb

/-- The map with `v` at `k`. -/
def insert [Std.TransOrd κ] (m : OrderedMap κ ν) (k : κ) (v : ν) : OrderedMap κ ν :=
  ⟨insertEntry k v m.entries, increasing_insertEntry m.increasing⟩

/-- The value of a key in a list of entries. -/
def lookup (k : κ) : List (κ × ν) → Option ν
  | [] => none
  | e :: rest => if compare k e.1 = .eq then some e.2 else lookup k rest

/-- The value at `k`. -/
def get? (m : OrderedMap κ ν) (k : κ) : Option ν := lookup k m.entries

/-- The key `k` has a value. -/
def contains (m : OrderedMap κ ν) (k : κ) : Bool := (m.get? k).isSome

/-- The number of entries. -/
def size (m : OrderedMap κ ν) : Nat := m.entries.length

/-- The keys in order. -/
def keys (m : OrderedMap κ ν) : List κ := m.entries.map Prod.fst

/-- The map of a list of entries, where a later entry replaces an earlier one of its key. -/
def ofList [Std.TransOrd κ] (l : List (κ × ν)) : OrderedMap κ ν :=
  l.foldl (fun m e => m.insert e.1 e.2) empty

/-! ### Laws of the view -/

@[simp] theorem entries_empty : (empty : OrderedMap κ ν).entries = [] := rfl

@[simp] theorem get?_empty (k : κ) : (empty : OrderedMap κ ν).get? k = none := rfl

theorem lookup_eq_none_of_lt {k : κ} {l : List (κ × ν)}
    (h : ∀ e ∈ l, compare k e.1 = .lt) : lookup k l = none := by
  induction l with
  | nil => rfl
  | cons a l ih =>
    simp [lookup, h a (by simp), ih fun e he => h e (by simp [he])]

variable [Std.LawfulEqOrd κ] [DecidableEq κ]

theorem lookup_insertEntry (k j : κ) (v : ν) (l : List (κ × ν)) :
    lookup j (insertEntry k v l) = if j = k then some v else lookup j l := by
  have key : ∀ a b : κ, (compare a b = .eq) = (a = b) := fun a b =>
    propext Std.LawfulEqOrd.compare_eq_iff_eq
  induction l with
  | nil => simp only [insertEntry, lookup, key]
  | cons a l ih =>
    simp only [insertEntry]
    split
    · simp only [lookup, key]
    next hk =>
      have hka := Std.LawfulEqOrd.eq_of_compare hk
      simp only [lookup, key, ← hka]
      split <;> rfl
    next hk =>
      have hne : k ≠ a.1 := fun e => by rw [e, Std.compare_self] at hk; cases hk
      simp only [lookup, key, ih]
      by_cases hj : j = a.1
      · simp [hj, Ne.symm hne]
      · simp [hj]

/-- An inserted value is found at its key, and no other key is touched. -/
theorem get?_insert [Std.TransOrd κ] (m : OrderedMap κ ν) (k j : κ) (v : ν) :
    (m.insert k v).get? j = if j = k then some v else m.get? j := by
  simp only [get?, insert, lookup_insertEntry]

@[simp] theorem get?_insert_self [Std.TransOrd κ] (m : OrderedMap κ ν) (k : κ) (v : ν) :
    (m.insert k v).get? k = some v := by
  rw [get?_insert, if_pos rfl]

theorem get?_insert_of_ne [Std.TransOrd κ] (m : OrderedMap κ ν) {k j : κ} (v : ν) (h : j ≠ k) :
    (m.insert k v).get? j = m.get? j := by
  rw [get?_insert, if_neg h]

end OrderedMap

/-- A set of keys, listed in order. -/
abbrev OrderedSet (κ : Type) [Ord κ] := OrderedMap κ Unit

/-- The set with `k` in it. -/
def OrderedSet.add {κ : Type} [Ord κ] [Std.TransOrd κ] (s : OrderedSet κ) (k : κ) : OrderedSet κ :=
  s.insert k ()

/-- The set of the members of a list. -/
def OrderedSet.ofMembers {κ : Type} [Ord κ] [Std.TransOrd κ] (l : List κ) : OrderedSet κ :=
  l.foldl OrderedSet.add OrderedMap.empty

end ResourceTypes
