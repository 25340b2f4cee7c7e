import Mathlib.Data.List.Perm.Subperm
import ResourceTypes.Proofs.SymbolTable.Allocation

/-! # When names run out

Names that are not empty make all candidates of a chain distinct (`nodup_candidates`): every end of
the chain is longer than the one before, and the numbers make the whole chain longer still.  A table
that has named levels holds one name for parameters and one for an observation of each of them
(`contains_of_nameLevels`), and neither kind of name can stand in the way of the other.  So a chain
of `k` names is exhausted only after `k + 8` levels have been named (`length_add_eight_le`). -/

namespace ResourceTypes.SymbolTable

/-! ### Distinct candidates -/

theorem length_le_of_mem_endings {suffix : String} {chain : List String} {name : String}
    (h : name ∈ endings suffix chain) : name.length ≤ (String.join chain ++ suffix).length := by
  obtain ⟨part, -, ⟨before, rfl⟩, rfl⟩ := mem_endings.mp h
  simp only [String.length_append, String.join_append]
  omega

theorem nodup_endings (suffix : String) {chain : List String} (filled : ∀ n ∈ chain, n ≠ "") :
    (endings suffix chain).Nodup := by
  induction chain with
  | nil => exact .nil
  | cons name rest ih =>
      obtain ⟨hname, hrest⟩ := List.forall_mem_cons.mp filled
      have longer : 0 < name.length :=
        Nat.pos_of_ne_zero (mt String.length_eq_zero_iff.mp hname)
      rw [endings]
      refine List.nodup_append.mpr ⟨ih hrest, List.nodup_singleton _, ?_⟩
      rintro c hc d hd rfl
      have short := length_le_of_mem_endings hc
      rw [List.mem_singleton.mp hd, String.join_cons] at short
      simp only [String.length_append] at short
      omega

theorem length_numbered {name : String} {n : Nat} (h : n ∈ numbers) :
    (numbered name n).length = name.length + 2 := by
  have digit : ∀ n ∈ numbers, (toString n).length = 1 := by decide
  rw [numbered, String.length_append, String.length_append, digit n h]
  rfl

theorem nodup_numbered (name : String) : (numbers.map (numbered name)).Nodup := by
  refine List.Nodup.map_on (fun m hm n hn same => ?_) (by decide)
  have digits : ∀ m ∈ numbers, ∀ n ∈ numbers, toString m = toString n → m = n := by decide
  exact digits m hm n hn ((String.append_right_inj _).mp same)

/-- Along a chain without empty names no candidate is tried twice. -/
theorem nodup_candidates (suffix : String) {chain : List String} (filled : ∀ n ∈ chain, n ≠ "") :
    (candidates suffix chain).Nodup := by
  refine List.nodup_append.mpr ⟨nodup_endings suffix filled, nodup_numbered _, ?_⟩
  rintro c hc d hd rfl
  obtain ⟨n, hn, rfl⟩ := List.mem_map.mp hd
  have short := length_le_of_mem_endings hc
  rw [length_numbered hn] at short
  omega

/-! ### Names of named levels -/

/-- The names that are taken after levels have been named are those from before and theirs. -/
theorem contains_of_nameLevels {t u : SymbolTable} {chains : List (List String)}
    {names : List TypeNames} (h : t.nameLevels chains = .ok (names, u)) {x : String}
    (taken : u.contains x = true) : t.contains x = true ∨ x ∈ names.flatMap TypeNames.both := by
  induction chains generalizing t names with
  | nil =>
      cases h
      exact .inl taken
  | cons chain rest ih =>
      obtain ⟨n, v, more, hn, hr, rfl⟩ := nameLevels_cons.mp h
      rw [List.flatMap_cons, List.mem_append]
      obtain hv | hmore := ih hr
      · obtain ⟨-, -, hfree⟩ := nameLevel_fresh hn
        by_contra hneither
        obtain ⟨ht, hnot⟩ := not_or.mp hneither
        have free : v.contains x = false :=
          (hfree x).mpr ⟨fun hx => hnot (.inl hx), by simpa using ht⟩
        rw [free] at hv
        cases hv
      · exact .inr (.inr hmore)

/-- From an empty table every name that is taken belongs to a level, and it is a candidate for one
of the two suffixes. -/
theorem exists_level_of_taken {t : SymbolTable} {chains : List (List String)}
    {names : List TypeNames} (h : empty.nameLevels chains = .ok (names, t)) {x : String}
    (taken : t.contains x = true) :
    ∃ n ∈ names, ∃ chain, x = n.parameters ∧ IsCandidate "Parameters" chain x ∨
      x = n.observation ∧ IsCandidate "Observation" chain x := by
  obtain before | own := contains_of_nameLevels h taken
  · cases before
  obtain ⟨n, hn, hx⟩ := List.mem_flatMap.mp own
  have levels := isCandidate_of_nameLevels h
  obtain ⟨i, hi, rfl⟩ := List.getElem_of_mem hn
  have hi' : i < chains.length := levels.length_eq ▸ hi
  obtain ⟨hp, ho⟩ := levels.get hi' hi
  obtain rfl | hx := List.mem_cons.mp hx
  · exact ⟨_, hn, _, .inl ⟨rfl, hp⟩⟩
  · obtain rfl := List.mem_singleton.mp hx
    exact ⟨_, hn, _, .inr ⟨rfl, ho⟩⟩

section levels

variable {t : SymbolTable} {chains : List (List String)} {names : List TypeNames}
  {chain : List String} {x : String}

theorem mem_parameters_of_taken (h : empty.nameLevels chains = .ok (names, t))
    (candidate : IsCandidate "Parameters" chain x) (taken : t.contains x = true) :
    x ∈ names.map TypeNames.parameters := by
  obtain ⟨n, hn, c, ⟨rfl, -⟩ | ⟨-, other⟩⟩ := exists_level_of_taken h taken
  · exact List.mem_map_of_mem hn
  · exact absurd rfl (candidate.ne other)

theorem mem_observations_of_taken (h : empty.nameLevels chains = .ok (names, t))
    (candidate : IsCandidate "Observation" chain x) (taken : t.contains x = true) :
    x ∈ names.map TypeNames.observation := by
  obtain ⟨n, hn, c, ⟨-, other⟩ | ⟨rfl, -⟩⟩ := exists_level_of_taken h taken
  · exact absurd rfl (other.ne candidate)
  · exact List.mem_map_of_mem hn

/-- A level that cannot be named has all its candidates for one of the two suffixes taken. -/
theorem taken_of_nameLevel_error {e : AllocationError} (named : chain ≠ [])
    (h : t.nameLevel chain = .error e) :
    (∀ c ∈ candidates "Parameters" chain, t.contains c = true) ∨
      ∀ c ∈ candidates "Observation" chain, t.contains c = true := by
  unfold nameLevel at h
  rw [allocate_eq_firstFree t _ named, allocate_eq_firstFree t _ named] at h
  split at h
  next => cases h
  next hp => exact .inl (firstFree_error.mp hp).2
  next ho => exact .inr (firstFree_error.mp ho).2

/-- From an empty table, a chain of `k` names that are not empty is exhausted only after `k + 8`
levels have been named. -/
theorem length_add_eight_le {e : AllocationError} (h : empty.nameLevels chains = .ok (names, t))
    (named : chain ≠ []) (filled : ∀ n ∈ chain, n ≠ "")
    (exhausted : t.nameLevel chain = .error e) : chain.length + 8 ≤ chains.length := by
  -- Each candidate is held by a level, and no two by the same one.
  have count {suffix : String} {own : TypeNames → String}
      (held : candidates suffix chain ⊆ names.map own) : chain.length + 8 ≤ chains.length := by
    have bound := ((nodup_candidates suffix filled).subperm held).length_le
    rwa [length_candidates, List.length_map, ← (isCandidate_of_nameLevels h).length_eq] at bound
  obtain all | all := taken_of_nameLevel_error named exhausted
  · exact count fun c hc => mem_parameters_of_taken h (mem_candidates.mp hc) (all c hc)
  · exact count fun c hc => mem_observations_of_taken h (mem_candidates.mp hc) (all c hc)

end levels

end ResourceTypes.SymbolTable
