import Mathlib.Data.List.Nodup
import ResourceTypes.OrderedMap

/-! # Filling ordered maps

A map is determined by its view (`ext_get?`), and the first entry whose key has a property is that
of the least such key (`find?_eq_some_iff`).  `insertAll` puts the entries of a list into a map
one after the other.  An entry is found at its key when all entries of the key agree with it
(`get?_insertAll_of_agree`), and a key that is not among them keeps its value
(`get?_insertAll_of_not_mem`).  The entries of a map make up the map (`insertAll_entries`).

The last entry of a key decides, whatever the map was before.  So putting all entries in again
changes nothing (`insertAll_insertAll`), even when later ones replace earlier ones. -/

namespace ResourceTypes

theorem find?_of_nodup {α : Type} {key : α → String} {l : List α} (distinct : (l.map key).Nodup)
    {a : α} (mem : a ∈ l) : (l.find? fun b => key b == key a) = some a := by
  cases hfound : l.find? fun b => key b == key a with
  | none =>
      have hno := List.find?_eq_none.mp hfound a mem
      simp at hno
  | some b =>
      have hkey : key b = key a := by simpa using List.find?_some hfound
      rw [List.inj_on_of_nodup_map distinct (List.mem_of_find?_eq_some hfound) mem hkey]

namespace OrderedMap

variable {κ ν : Type} [Ord κ]

/-! ### Maps and their views -/

section Views

variable [Std.LawfulEqOrd κ]

theorem lookup_cons_self (e : κ × ν) (l : List (κ × ν)) : lookup e.1 (e :: l) = some e.2 := by
  rw [lookup, if_pos Std.compare_self]

theorem mem_of_lookup {k : κ} {v : ν} {l : List (κ × ν)} (h : lookup k l = some v) :
    (k, v) ∈ l := by
  induction l with
  | nil => cases h
  | cons e l ih =>
      rw [lookup] at h
      split at h
      next hk =>
        cases h
        rw [Std.LawfulEqOrd.eq_of_compare hk]
        exact List.mem_cons_self
      next => exact List.mem_cons_of_mem e (ih h)

theorem mem_of_get? {m : OrderedMap κ ν} {k : κ} {v : ν} (h : m.get? k = some v) :
    (k, v) ∈ m.entries :=
  mem_of_lookup h

theorem lookup_of_mem {l : List (κ × ν)}
    (hl : l.Pairwise fun a b => compare a.1 b.1 = .lt) {e : κ × ν} (h : e ∈ l) :
    lookup e.1 l = some e.2 := by
  induction l with
  | nil => cases h
  | cons a l ih =>
      obtain ⟨ha, hrest⟩ := List.pairwise_cons.mp hl
      rcases List.mem_cons.mp h with rfl | h
      · exact lookup_cons_self e l
      · have hne : compare e.1 a.1 ≠ .eq := fun heq =>
          KeyOrder.ne_of_lt (ha e h) (Std.LawfulEqOrd.eq_of_compare heq).symm
        rw [lookup, if_neg hne, ih hrest h]

/-- The entries of a map are the keys with their values. -/
theorem get?_eq_some_iff {m : OrderedMap κ ν} {k : κ} {v : ν} :
    m.get? k = some v ↔ (k, v) ∈ m.entries :=
  ⟨mem_of_get?, fun h => lookup_of_mem m.increasing h⟩

theorem contains_iff {m : OrderedMap κ ν} {k : κ} :
    m.contains k = true ↔ ∃ e ∈ m.entries, e.1 = k := by
  rw [contains, Option.isSome_iff_exists]
  simp only [get?_eq_some_iff]
  constructor
  · rintro ⟨v, hv⟩
    exact ⟨_, hv, rfl⟩
  · rintro ⟨e, he, rfl⟩
    exact ⟨e.2, he⟩

theorem mem_keys_iff {m : OrderedMap κ ν} {k : κ} : k ∈ m.keys ↔ m.contains k = true := by
  rw [contains_iff, keys, List.mem_map]

variable [Std.TransOrd κ]

/-- The first entry with a property of keys is the one of the least such key. -/
theorem find?_eq_some_iff {m : OrderedMap κ ν} (P : κ → Bool) {e : κ × ν} :
    (m.entries.find? fun e => P e.1) = some e ↔ m.get? e.1 = some e.2 ∧ P e.1 = true ∧
      ∀ k, m.contains k = true → P k = true → k = e.1 ∨ compare e.1 k = .lt := by
  rw [List.find?_eq_some_iff_append, get?_eq_some_iff]
  constructor
  · rintro ⟨hP, before, after, hentries, hbefore⟩
    have increasing := m.increasing
    rw [hentries, List.pairwise_append] at increasing
    refine ⟨hentries ▸ by simp, hP, fun k hk hPk => ?_⟩
    obtain ⟨e', he', rfl⟩ := contains_iff.mp hk
    rw [hentries, List.mem_append, List.mem_cons] at he'
    rcases he' with he' | rfl | he'
    · have hnot := hbefore e' he'
      rw [hPk] at hnot
      cases hnot
    · exact .inl rfl
    · exact .inr (List.rel_of_pairwise_cons increasing.2.1 he')
  · rintro ⟨he, hP, hleast⟩
    obtain ⟨before, after, hentries⟩ := List.append_of_mem he
    have increasing := m.increasing
    rw [hentries, List.pairwise_append] at increasing
    refine ⟨hP, before, after, hentries, fun e' he' => ?_⟩
    have hlt := increasing.2.2 e' he' e List.mem_cons_self
    rw [Bool.not_eq_true', ← Bool.not_eq_true]
    intro hP'
    rcases hleast e'.1 (contains_iff.mpr ⟨e', hentries ▸ by simp [he'], rfl⟩) hP' with heq | hless
    · exact KeyOrder.ne_of_lt hlt heq
    · exact Std.OrientedCmp.not_lt_of_lt hlt hless

theorem not_lt_of_lookup_eq {a b : κ × ν} {l l' : List (κ × ν)}
    (hb : ∀ e ∈ l', compare b.1 e.1 = .lt)
    (h : lookup a.1 (a :: l) = lookup a.1 (b :: l')) : compare a.1 b.1 ≠ .lt := by
  intro hlt
  rw [lookup_cons_self, lookup_eq_none_of_lt] at h
  · cases h
  · exact List.forall_mem_cons.mpr ⟨hlt, fun e he => Std.TransCmp.lt_trans hlt (hb e he)⟩

/-- Lists with the same view have the same entry of the least key. -/
theorem head_eq_of_lookup {a b : κ × ν} {l l' : List (κ × ν)}
    (hl : ∀ e ∈ l, compare a.1 e.1 = .lt) (hl' : ∀ e ∈ l', compare b.1 e.1 = .lt)
    (h : ∀ k, lookup k (a :: l) = lookup k (b :: l')) : a = b := by
  cases hk : compare a.1 b.1 with
  | lt => exact absurd hk (not_lt_of_lookup_eq hl' (h a.1))
  | gt =>
      have hgt := Std.OrientedCmp.gt_iff_lt.mp hk
      exact absurd hgt (not_lt_of_lookup_eq hl (h b.1).symm)
  | eq =>
      have hkey := Std.LawfulEqOrd.eq_of_compare hk
      have hval := h a.1
      rw [lookup_cons_self, hkey, lookup_cons_self] at hval
      exact Prod.ext hkey (Option.some.inj hval)

theorem eq_of_lookup {l l' : List (κ × ν)}
    (hl : l.Pairwise fun a b => compare a.1 b.1 = .lt)
    (hl' : l'.Pairwise fun a b => compare a.1 b.1 = .lt)
    (h : ∀ k, lookup k l = lookup k l') : l = l' := by
  induction l generalizing l' with
  | nil =>
      cases l' with
      | nil => rfl
      | cons b l' =>
          have hb := h b.1
          rw [lookup_cons_self] at hb
          cases hb
  | cons a l ih =>
      cases l' with
      | nil =>
          have ha := h a.1
          rw [lookup_cons_self] at ha
          cases ha
      | cons b l' =>
          obtain ⟨hal, hrest⟩ := List.pairwise_cons.mp hl
          obtain ⟨hbl, hrest'⟩ := List.pairwise_cons.mp hl'
          obtain rfl := head_eq_of_lookup hal hbl h
          refine congrArg (a :: ·) (ih hrest hrest' fun k => ?_)
          have hk := h k
          simp only [lookup] at hk
          split at hk
          next he =>
            rw [Std.LawfulEqOrd.eq_of_compare he, lookup_eq_none_of_lt hal,
              lookup_eq_none_of_lt hbl]
          next => exact hk

/-- Maps with the same view are the same. -/
theorem ext_get? {m n : OrderedMap κ ν} (h : ∀ k, m.get? k = n.get? k) : m = n :=
  ext (eq_of_lookup m.increasing n.increasing h)

end Views

/-! ### Filling -/

variable [Std.TransOrd κ]

/-- The map with the entries of a list put in one after the other. -/
def insertAll (m : OrderedMap κ ν) (entries : List (κ × ν)) : OrderedMap κ ν :=
  entries.foldl (fun m e => m.insert e.1 e.2) m

@[simp] theorem insertAll_nil (m : OrderedMap κ ν) : m.insertAll [] = m := rfl

@[simp] theorem insertAll_cons (m : OrderedMap κ ν) (e : κ × ν) (entries : List (κ × ν)) :
    m.insertAll (e :: entries) = (m.insert e.1 e.2).insertAll entries := rfl

@[simp] theorem insertAll_append (m : OrderedMap κ ν) (entries entries' : List (κ × ν)) :
    m.insertAll (entries ++ entries') = (m.insertAll entries).insertAll entries' :=
  List.foldl_append

theorem insertEntry_of_lt {k : κ} {v : ν} {l : List (κ × ν)}
    (h : ∀ e ∈ l, compare e.1 k = .lt) : insertEntry k v l = l ++ [(k, v)] := by
  induction l with
  | nil => rfl
  | cons e l ih =>
      obtain ⟨he, hl⟩ := List.forall_mem_cons.mp h
      simp only [insertEntry, Std.OrientedCmp.gt_iff_lt.mpr he, ih hl, List.cons_append]

theorem foldl_insertEntry {l l' : List (κ × ν)}
    (h : (l ++ l').Pairwise fun a b => compare a.1 b.1 = .lt) :
    l'.foldl (fun l e => insertEntry e.1 e.2 l) l = l ++ l' := by
  induction l' generalizing l with
  | nil => rw [List.foldl_nil, List.append_nil]
  | cons e l' ih =>
      have before : ∀ e' ∈ l, compare e'.1 e.1 = .lt := fun e' he' =>
        (List.pairwise_append.mp h).2.2 e' he' e List.mem_cons_self
      rw [List.append_cons] at h
      rw [List.foldl_cons, insertEntry_of_lt before, ih h, List.append_assoc, List.singleton_append]

theorem entries_insertAll (m : OrderedMap κ ν) (l : List (κ × ν)) :
    (m.insertAll l).entries = l.foldl (fun l e => insertEntry e.1 e.2 l) m.entries := by
  induction l generalizing m with
  | nil => rfl
  | cons e l ih => exact ih (m.insert e.1 e.2)

/-- The entries of a map make up the map. -/
theorem insertAll_entries (m : OrderedMap κ ν) : empty.insertAll m.entries = m :=
  ext ((entries_insertAll empty m.entries).trans (foldl_insertEntry m.increasing))

variable [Std.LawfulEqOrd κ] [DecidableEq κ]

/-- A key that is not put in keeps its value. -/
theorem get?_insertAll_of_not_mem (m : OrderedMap κ ν) {entries : List (κ × ν)} {k : κ}
    (h : k ∉ entries.map Prod.fst) : (m.insertAll entries).get? k = m.get? k := by
  induction entries generalizing m with
  | nil => rfl
  | cons e entries ih =>
      obtain ⟨hk, h⟩ := not_or.mp (mt List.mem_cons.mpr h)
      rw [insertAll_cons, ih _ h, get?_insert_of_ne m e.2 hk]

/-- An entry with which all entries of its key agree is found at its key. -/
theorem get?_insertAll_of_agree (m : OrderedMap κ ν) {entries : List (κ × ν)} {e : κ × ν}
    (h : e ∈ entries) (agree : ∀ e' ∈ entries, e'.1 = e.1 → e'.2 = e.2) :
    (m.insertAll entries).get? e.1 = some e.2 := by
  induction entries generalizing m with
  | nil => cases h
  | cons first entries ih =>
      obtain ⟨-, hrest⟩ := List.forall_mem_cons.mp agree
      rw [insertAll_cons]
      by_cases hlater : e ∈ entries
      · exact ih _ hlater hrest
      · have hfirst : e = first := (List.mem_cons.mp h).resolve_right hlater
        have hlast : e.1 ∉ entries.map Prod.fst := by
          intro hkey
          obtain ⟨e', he', hk⟩ := List.mem_map.mp hkey
          have heq : e' = e := Prod.ext hk (hrest e' he' hk)
          exact hlater (heq ▸ he')
        rw [get?_insertAll_of_not_mem _ hlast, hfirst, get?_insert_self]

theorem get?_insertAll_of_mem (m : OrderedMap κ ν) {entries : List (κ × ν)} {e : κ × ν}
    (nodup : (entries.map Prod.fst).Nodup) (h : e ∈ entries) :
    (m.insertAll entries).get? e.1 = some e.2 := by
  refine get?_insertAll_of_agree m h fun e' he' hk => ?_
  exact congrArg Prod.snd (List.inj_on_of_nodup_map nodup he' h hk)

theorem insertAll_of_forall_eq (m : OrderedMap κ ν) {entries : List (κ × ν)} {e : κ × ν}
    (hne : entries ≠ []) (h : ∀ e' ∈ entries, e' = e) :
    m.insertAll entries = m.insert e.1 e.2 := by
  obtain ⟨e', he'⟩ := List.exists_mem_of_ne_nil _ hne
  have he : e ∈ entries := h e' he' ▸ he'
  refine ext_get? fun k => ?_
  by_cases hk : k = e.1
  · rw [hk, get?_insert_self]
    exact get?_insertAll_of_agree m he fun e' he' _ => congrArg Prod.snd (h e' he')
  · rw [get?_insert_of_ne m e.2 hk, get?_insertAll_of_not_mem]
    intro hmem
    obtain ⟨e', he', hkey⟩ := List.mem_map.mp hmem
    exact hk (by rw [← hkey, h e' he'])

theorem contains_insert (m : OrderedMap κ ν) (k j : κ) (v : ν) :
    (m.insert k v).contains j = true ↔ j = k ∨ m.contains j = true := by
  rw [contains, get?_insert, contains]
  by_cases h : j = k <;> simp [h]

theorem contains_insertAll (m : OrderedMap κ ν) (entries : List (κ × ν)) (j : κ) :
    (m.insertAll entries).contains j = true ↔
      m.contains j = true ∨ j ∈ entries.map Prod.fst := by
  induction entries generalizing m with
  | nil => simp
  | cons e entries ih =>
      rw [insertAll_cons, ih, contains_insert, List.map_cons, List.mem_cons]
      tauto

theorem contains_insertAll_of_contains {m : OrderedMap κ ν} (entries : List (κ × ν)) {j : κ}
    (h : m.contains j = true) : (m.insertAll entries).contains j = true :=
  (contains_insertAll m entries j).mpr (.inl h)

theorem get?_insertAll_congr (m m' : OrderedMap κ ν) {entries : List (κ × ν)} {k : κ}
    (h : k ∈ entries.map Prod.fst) :
    (m.insertAll entries).get? k = (m'.insertAll entries).get? k := by
  induction entries generalizing m m' with
  | nil => cases h
  | cons e entries ih =>
      rw [insertAll_cons, insertAll_cons]
      by_cases hlater : k ∈ entries.map Prod.fst
      · exact ih _ _ hlater
      · have hfirst : k = e.1 := (List.mem_cons.mp h).resolve_right hlater
        rw [get?_insertAll_of_not_mem _ hlater, get?_insertAll_of_not_mem _ hlater, hfirst,
          get?_insert_self, get?_insert_self]

/-- Putting entries in a second time changes nothing. -/
theorem insertAll_insertAll (m : OrderedMap κ ν) (entries : List (κ × ν)) :
    (m.insertAll entries).insertAll entries = m.insertAll entries := by
  refine ext_get? fun k => ?_
  by_cases hk : k ∈ entries.map Prod.fst
  · exact get?_insertAll_congr _ _ hk
  · rw [get?_insertAll_of_not_mem _ hk]

/-- The order in which entries with distinct keys are put in does not matter. -/
theorem insertAll_perm (m : OrderedMap κ ν) {entries entries' : List (κ × ν)}
    (nodup : (entries'.map Prod.fst).Nodup) (h : entries.Perm entries') :
    m.insertAll entries = m.insertAll entries' := by
  have nodup' : (entries.map Prod.fst).Nodup := (h.map Prod.fst).nodup_iff.mpr nodup
  refine ext_get? fun k => ?_
  by_cases hk : k ∈ entries.map Prod.fst
  · obtain ⟨e, he, rfl⟩ := List.mem_map.mp hk
    rw [get?_insertAll_of_mem m nodup' he, get?_insertAll_of_mem m nodup (h.mem_iff.mp he)]
  · rw [get?_insertAll_of_not_mem m hk,
      get?_insertAll_of_not_mem m fun hk' => hk ((h.map Prod.fst).mem_iff.mpr hk')]

end OrderedMap

end ResourceTypes
