import Mathlib.Data.List.Forall2
import Mathlib.Data.List.Nodup
import Mathlib.Tactic.Common
import ResourceTypes.SymbolTable

/-! # Candidates for type names

The candidates that a chain of names offers for a suffix are the joined ends of the chain with
the suffix, and the whole chain with the suffix and a number (`IsCandidate`).  `allocate` gives
a free candidate of its chain (`free_of_allocate`, `isCandidate_of_allocate`), and a candidate
for parameters is never one for an observation (`IsCandidate.ne`).

`nameLevel` takes the two names of a level: both are sought in the same table, and only then
taken.  `nameLevels` does so for the levels of a list in turn; all the names that it gives are
distinct and were free in the table at the start (`nameLevels_fresh`). -/

namespace ResourceTypes

/-- The names of the two types of a level. -/
structure TypeNames where
  parameters : String
  observation : String
deriving DecidableEq, Repr

/-- Both names in the order in which the types are emitted. -/
def TypeNames.both (n : TypeNames) : List String := [n.parameters, n.observation]

namespace SymbolTable

/-! ### Candidates -/

/-- The chain offers the name for the suffix: an end of the chain with the suffix, or all of it
with the suffix and a number. -/
def IsCandidate (suffix : String) (chain : List String) (name : String) : Prop :=
  (∃ part, part ≠ [] ∧ part <:+ chain ∧ name = String.join part ++ suffix) ∨
    ∃ n ∈ numbers, name = numbered (String.join chain ++ suffix) n

theorem allocateNumbered_ok {t : SymbolTable} {full name : String}
    (h : t.allocateNumbered full = .ok name) :
    t.contains name = false ∧ ∃ n ∈ numbers, name = numbered full n := by
  unfold allocateNumbered at h
  split at h
  next found hf =>
    cases h
    have hfree : t.contains name = false := by simpa using List.find?_some hf
    obtain ⟨n, hn, rfl⟩ := List.mem_map.mp (List.mem_of_find?_eq_some hf)
    exact ⟨hfree, n, hn, rfl⟩
  next => cases h

theorem climb_ok {t : SymbolTable} {suffix name : String} {ancestors part : List String}
    (hpart : part ≠ []) (h : t.climb (String.join part ++ suffix) ancestors = .ok name) :
    t.contains name = false ∧ IsCandidate suffix (ancestors.reverse ++ part) name := by
  induction ancestors generalizing part with
  | nil =>
      rw [climb] at h
      split at h
      · obtain ⟨hfree, hn⟩ := allocateNumbered_ok h
        exact ⟨hfree, .inr hn⟩
      next hc =>
        cases h
        exact ⟨by simpa using hc, .inl ⟨part, hpart, List.suffix_rfl, rfl⟩⟩
  | cons ancestor rest ih =>
      rw [climb] at h
      split at h
      · rw [← String.append_assoc, ← String.join_cons] at h
        have := ih (List.cons_ne_nil ancestor part) h
        rwa [List.reverse_cons, List.append_assoc, List.singleton_append]
      next hc =>
        cases h
        exact ⟨by simpa using hc, .inl ⟨part, hpart, List.suffix_append _ _, rfl⟩⟩

theorem allocate_ok {t : SymbolTable} {suffix name : String} {chain : List String}
    (h : t.allocate suffix chain = .ok name) :
    t.contains name = false ∧ IsCandidate suffix chain name := by
  unfold allocate at h
  split at h
  next => cases h
  next last ancestors hr =>
    have hc : chain = ancestors.reverse ++ [last] := by
      rw [← List.reverse_reverse chain, hr, List.reverse_cons]
    rw [hc]
    exact climb_ok (List.cons_ne_nil last []) (by simpa [String.join_cons] using h)

theorem free_of_allocate {t : SymbolTable} {suffix name : String} {chain : List String}
    (h : t.allocate suffix chain = .ok name) : t.contains name = false := (allocate_ok h).1

theorem isCandidate_of_allocate {t : SymbolTable} {suffix name : String} {chain : List String}
    (h : t.allocate suffix chain = .ok name) : IsCandidate suffix chain name := (allocate_ok h).2

/-! ### The two suffixes -/

theorem toString_number {n : Nat} (h : n ∈ numbers) : ∃ d : Char, (toString n).toList = [d] := by
  have all : ∀ n ∈ numbers, (toString n).toList.length = 1 := by decide
  exact List.length_eq_one_iff.mp (all n h)

theorem IsCandidate.toList_eq {suffix name : String} {chain : List String}
    (h : IsCandidate suffix chain name) :
    ∃ stem, name.toList = stem ++ suffix.toList ∨
      ∃ d, name.toList = stem ++ suffix.toList ++ ['_', d] := by
  rcases h with ⟨part, -, -, rfl⟩ | ⟨n, hn, rfl⟩
  · exact ⟨_, .inl String.toList_append⟩
  · obtain ⟨d, hd⟩ := toString_number hn
    refine ⟨(String.join chain).toList, .inr ⟨d, ?_⟩⟩
    simp only [numbered, String.toList_append, hd]
    simp

/-- No name is a candidate for parameters and for an observation. -/
theorem IsCandidate.ne {chain chain' : List String} {p o : String}
    (hp : IsCandidate "Parameters" chain p) (ho : IsCandidate "Observation" chain' o) : p ≠ o := by
  rintro rfl
  obtain ⟨stem, hs⟩ := hp.toList_eq
  obtain ⟨stem', hs'⟩ := ho.toList_eq
  -- The two names already differ in one of their last two characters.
  rcases hs with hs | ⟨d, hs⟩ <;> rcases hs' with hs' | ⟨d', hs'⟩ <;>
    · have e := congrArg List.reverse (hs.symm.trans hs')
      simp at e

/-! ### The names of levels -/

/-- The names for a level with the given chain, and the table in which they are taken. -/
def nameLevel (t : SymbolTable) (chain : List String) :
    Except AllocationError (TypeNames × SymbolTable) :=
  match t.allocate "Parameters" chain, t.allocate "Observation" chain with
  | .ok p, .ok o => .ok (⟨p, o⟩, (t.insert p).insert o)
  | .error e, _ => .error e
  | .ok _, .error e => .error e

/-- The names for levels with the given chains, which are named one after the other. -/
def nameLevels (t : SymbolTable) : List (List String) →
    Except AllocationError (List TypeNames × SymbolTable)
  | [] => .ok ([], t)
  | chain :: rest =>
    match t.nameLevel chain with
    | .error e => .error e
    | .ok (names, u) =>
      match u.nameLevels rest with
      | .error e => .error e
      | .ok (more, v) => .ok (names :: more, v)

theorem nameLevel_ok {t u : SymbolTable} {chain : List String} {n : TypeNames} :
    t.nameLevel chain = .ok (n, u) ↔
      t.allocate "Parameters" chain = .ok n.parameters ∧
        t.allocate "Observation" chain = .ok n.observation ∧
        u = (t.insert n.parameters).insert n.observation := by
  obtain ⟨p, o⟩ := n
  unfold nameLevel
  rcases t.allocate "Parameters" chain with e | p' <;>
    rcases t.allocate "Observation" chain with e' | o' <;> simp
  constructor
  · rintro ⟨⟨rfl, rfl⟩, rfl⟩
    exact ⟨rfl, rfl, rfl⟩
  · rintro ⟨rfl, rfl, rfl⟩
    exact ⟨⟨rfl, rfl⟩, rfl⟩

theorem nameLevels_cons {t v : SymbolTable} {chain : List String} {rest : List (List String)}
    {names : List TypeNames} :
    t.nameLevels (chain :: rest) = .ok (names, v) ↔
      ∃ n u more, t.nameLevel chain = .ok (n, u) ∧ u.nameLevels rest = .ok (more, v) ∧
        names = n :: more := by
  rw [nameLevels]
  rcases t.nameLevel chain with e | ⟨n, u⟩
  · simp
  · rcases hr : u.nameLevels rest with e | ⟨more, w⟩
    · simp [hr]
    · simp only [hr, Except.ok.injEq, Prod.mk.injEq]
      constructor
      · rintro ⟨rfl, rfl⟩
        exact ⟨n, u, more, ⟨rfl, rfl⟩, hr, rfl⟩
      · rintro ⟨_, _, _, ⟨rfl, rfl⟩, hr', rfl⟩
        rw [hr] at hr'
        cases hr'
        exact ⟨rfl, rfl⟩

theorem nameLevels_append {t u v : SymbolTable} {first second : List (List String)}
    {names more : List TypeNames} (h₁ : t.nameLevels first = .ok (names, u))
    (h₂ : u.nameLevels second = .ok (more, v)) :
    t.nameLevels (first ++ second) = .ok (names ++ more, v) := by
  induction first generalizing t names with
  | nil =>
      cases h₁
      exact h₂
  | cons chain rest ih =>
      obtain ⟨n, w, names', hn, hr, rfl⟩ := nameLevels_cons.mp h₁
      exact nameLevels_cons.mpr ⟨n, w, names' ++ more, hn, ih hr, rfl⟩

/-! ### Tables of the same names -/

/-- The same names are taken in both tables. -/
def SameNames (t t' : SymbolTable) : Prop := ∀ x, t.contains x = t'.contains x

theorem SameNames.insert {t t' : SymbolTable} (h : t.SameNames t') (name : String) :
    (t.insert name).SameNames (t'.insert name) := by
  intro x
  rw [contains_insert, contains_insert, h x]

theorem SameNames.climb_eq {t t' : SymbolTable} (h : t.SameNames t') (candidate : String)
    (ancestors : List String) : t.climb candidate ancestors = t'.climb candidate ancestors := by
  induction ancestors generalizing candidate with
  | nil => simp only [climb, allocateNumbered, h _]
  | cons ancestor rest ih => rw [climb, climb, h candidate, ih]

theorem SameNames.allocate_eq {t t' : SymbolTable} (h : t.SameNames t') (suffix : String)
    (chain : List String) : t.allocate suffix chain = t'.allocate suffix chain := by
  unfold allocate
  split
  · rfl
  · exact h.climb_eq _ _

theorem SameNames.nameLevel {t t' u : SymbolTable} (h : t.SameNames t') {chain : List String}
    {n : TypeNames} (hn : t.nameLevel chain = .ok (n, u)) :
    ∃ u', t'.nameLevel chain = .ok (n, u') ∧ u.SameNames u' := by
  obtain ⟨hp, ho, rfl⟩ := nameLevel_ok.mp hn
  rw [h.allocate_eq] at hp ho
  exact ⟨_, nameLevel_ok.mpr ⟨hp, ho, rfl⟩, (h.insert _).insert _⟩

/-- Tables of the same names give the same names. -/
theorem SameNames.nameLevels {t t' u : SymbolTable} (h : t.SameNames t')
    {chains : List (List String)} {names : List TypeNames}
    (hn : t.nameLevels chains = .ok (names, u)) : ∃ u', t'.nameLevels chains = .ok (names, u') := by
  induction chains generalizing t t' names with
  | nil =>
      cases hn
      exact ⟨t', rfl⟩
  | cons chain rest ih =>
      obtain ⟨n, v, more, hc, hr, rfl⟩ := nameLevels_cons.mp hn
      obtain ⟨v', hc', hv⟩ := h.nameLevel hc
      obtain ⟨u', hr'⟩ := ih hv hr
      exact ⟨u', nameLevels_cons.mpr ⟨n, v', more, hc', hr', rfl⟩⟩

/-! ### Freshness -/

theorem nameLevel_fresh {t u : SymbolTable} {chain : List String} {n : TypeNames}
    (h : t.nameLevel chain = .ok (n, u)) :
    n.both.Nodup ∧ (∀ x ∈ n.both, t.contains x = false) ∧
      ∀ x, u.contains x = false ↔ x ∉ n.both ∧ t.contains x = false := by
  obtain ⟨hp, ho, rfl⟩ := nameLevel_ok.mp h
  have hne := (isCandidate_of_allocate hp).ne (isCandidate_of_allocate ho)
  refine ⟨by simp [TypeNames.both, hne], ?_, fun x => ?_⟩
  · simp [TypeNames.both, free_of_allocate hp, free_of_allocate ho]
  · simp only [contains_insert, TypeNames.both, Bool.or_eq_false_iff, beq_eq_false_iff_ne,
      List.mem_cons, List.not_mem_nil, or_false, not_or]
    tauto

theorem isCandidate_of_nameLevel {t u : SymbolTable} {chain : List String} {n : TypeNames}
    (h : t.nameLevel chain = .ok (n, u)) :
    IsCandidate "Parameters" chain n.parameters ∧
        IsCandidate "Observation" chain n.observation := by
  obtain ⟨hp, ho, -⟩ := nameLevel_ok.mp h
  exact ⟨isCandidate_of_allocate hp, isCandidate_of_allocate ho⟩

/-- All names of a list of levels are distinct and were free at the start. -/
theorem nameLevels_fresh {t u : SymbolTable} {chains : List (List String)}
    {names : List TypeNames} (h : t.nameLevels chains = .ok (names, u)) :
    (names.flatMap TypeNames.both).Nodup ∧
      ∀ x ∈ names.flatMap TypeNames.both, t.contains x = false := by
  induction chains generalizing t names with
  | nil =>
      cases h
      simp
  | cons chain rest ih =>
      obtain ⟨n, v, more, hn, hr, rfl⟩ := nameLevels_cons.mp h
      obtain ⟨hnd, hfree, hv⟩ := nameLevel_fresh hn
      obtain ⟨ihnd, ihfree⟩ := ih hr
      rw [List.flatMap_cons]
      refine ⟨List.nodup_append.mpr ⟨hnd, ihnd, ?_⟩, ?_⟩
      · rintro x hx y hy rfl
        exact ((hv x).mp (ihfree x hy)).1 hx
      · intro x hx
        rcases List.mem_append.mp hx with hx | hx
        · exact hfree x hx
        · exact ((hv x).mp (ihfree x hx)).2

/-- Each level gets candidates of its own chain. -/
theorem isCandidate_of_nameLevels {t u : SymbolTable} {chains : List (List String)}
    {names : List TypeNames} (h : t.nameLevels chains = .ok (names, u)) :
    List.Forall₂ (fun chain n => IsCandidate "Parameters" chain n.parameters ∧
      IsCandidate "Observation" chain n.observation) chains names := by
  induction chains generalizing t names with
  | nil =>
      cases h
      exact .nil
  | cons chain rest ih =>
      obtain ⟨n, v, more, hn, hr, rfl⟩ := nameLevels_cons.mp h
      exact .cons (isCandidate_of_nameLevel hn) (ih hr)

end SymbolTable

end ResourceTypes
