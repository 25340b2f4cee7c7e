import Mathlib.Data.List.Dedup
import Mathlib.Tactic.Common
import ResourceTypes.Proofs.OrderedMap

/-! # Filling ordered sets

`addAll` puts the members of a list into a set one after the other.  The members of the result
are those of the set and of the list (`contains_addAll`), so that nothing is lost, and a member
that is put in again changes nothing (`add_of_contains`, `addAll_addAll`).  The set grows by the
number of the different members that it did not have (`size_addAll`). -/

namespace ResourceTypes.OrderedSet

variable {κ : Type} [Ord κ] [Std.TransOrd κ]

/-- The set with the members of a list put in one after the other. -/
def addAll (s : OrderedSet κ) (l : List κ) : OrderedSet κ := l.foldl OrderedSet.add s

@[simp] theorem addAll_nil (s : OrderedSet κ) : s.addAll [] = s := rfl

@[simp] theorem addAll_cons (s : OrderedSet κ) (k : κ) (l : List κ) :
    s.addAll (k :: l) = (s.add k).addAll l := rfl

theorem addAll_append (s : OrderedSet κ) (l l' : List κ) :
    s.addAll (l ++ l') = (s.addAll l).addAll l' :=
  List.foldl_append

theorem addAll_eq_insertAll (s : OrderedSet κ) (l : List κ) :
    s.addAll l = OrderedMap.insertAll s (l.map fun k => (k, ())) := by
  induction l generalizing s with
  | nil => rfl
  | cons k l ih => exact ih (s.add k)

theorem nodup_keys (s : OrderedSet κ) : s.keys.Nodup := by
  rw [OrderedMap.keys, List.Nodup, List.pairwise_map]
  exact s.increasing.imp KeyOrder.ne_of_lt

variable [Std.LawfulEqOrd κ] [DecidableEq κ]

theorem contains_add (s : OrderedSet κ) (k j : κ) :
    (s.add k).contains j = true ↔ j = k ∨ s.contains j = true :=
  OrderedMap.contains_insert s k j ()

theorem contains_add_eq_false (s : OrderedSet κ) (k j : κ) :
    (s.add k).contains j = false ↔ j ≠ k ∧ s.contains j = false := by
  rw [← Bool.not_eq_true, contains_add, not_or, Bool.not_eq_true]

/-- The members are those of the set and of the list. -/
theorem contains_addAll (s : OrderedSet κ) (l : List κ) (j : κ) :
    (s.addAll l).contains j = true ↔ s.contains j = true ∨ j ∈ l := by
  rw [addAll_eq_insertAll, OrderedMap.contains_insertAll]
  simp

/-- A member that is put in again changes nothing. -/
theorem add_of_contains {s : OrderedSet κ} {k : κ} (h : s.contains k = true) : s.add k = s := by
  refine OrderedMap.ext_get? fun j => ?_
  rw [OrderedSet.add, OrderedMap.get?_insert]
  split
  next hj =>
    obtain ⟨v, hv⟩ := Option.isSome_iff_exists.mp h
    rw [hj, hv]
  next => rfl

/-- Members that are put in again change nothing. -/
theorem addAll_addAll (s : OrderedSet κ) (l : List κ) : (s.addAll l).addAll l = s.addAll l := by
  rw [addAll_eq_insertAll, addAll_eq_insertAll, OrderedMap.insertAll_insertAll]

/-! ### Sizes -/

/-- A set grows by the different members that are new. -/
theorem size_addAll (s : OrderedSet κ) (l : List κ) :
    (s.addAll l).size = s.size + (l.filter fun k => !s.contains k).dedup.length := by
  have members : (s.addAll l).keys.Perm (s.keys ++ (l.filter fun k => !s.contains k).dedup) := by
    refine (List.perm_ext_iff_of_nodup (nodup_keys _) ?_).mpr fun k => ?_
    · refine List.nodup_append.mpr ⟨nodup_keys s, List.nodup_dedup _, ?_⟩
      rintro k hk _ hk' rfl
      have new := (List.mem_filter.mp (List.mem_dedup.mp hk')).2
      rw [OrderedMap.mem_keys_iff.mp hk] at new
      cases new
    · rw [OrderedMap.mem_keys_iff, contains_addAll, List.mem_append, OrderedMap.mem_keys_iff,
        List.mem_dedup, List.mem_filter]
      cases s.contains k <;> simp
  have sizes := members.length_eq
  rw [List.length_append] at sizes
  simpa only [OrderedMap.keys, OrderedMap.size, List.length_map] using sizes

end ResourceTypes.OrderedSet
