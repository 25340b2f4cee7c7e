import ResourceTypes.Proofs.SymbolTable.Candidates

/-! # The order of candidates

`candidates` lists what a chain offers for a suffix in the order in which it is tried: the joined
ends of the chain, the innermost name first and the whole chain last, and then the whole chain with
a number.  An allocation goes through this list to the first name that is free
(`allocate_eq_firstFree`); it has come to some end of the chain when all shorter ends are taken,
which is what the climb along the ancestors keeps (`climb_eq_firstFree`).

An allocation does not ask whether the names of a chain are empty or repeated: then a candidate may
stand in the list more than once. -/

namespace ResourceTypes.SymbolTable

/-! ### Candidates in order -/

/-- The joined ends of a chain with the suffix, the innermost name first and the whole chain
last. -/
def endings (suffix : String) : List String → List String
  | [] => []
  | name :: rest => endings suffix rest ++ [String.join (name :: rest) ++ suffix]

/-- The names that are tried for the suffix along the chain, in this order. -/
def candidates (suffix : String) (chain : List String) : List String :=
  endings suffix chain ++ numbers.map (numbered (String.join chain ++ suffix))

@[simp] theorem length_endings (suffix : String) (chain : List String) :
    (endings suffix chain).length = chain.length := by
  induction chain with
  | nil => rfl
  | cons name rest ih => rw [endings, List.length_append, ih]; rfl

@[simp] theorem length_candidates (suffix : String) (chain : List String) :
    (candidates suffix chain).length = chain.length + 8 := by
  rw [candidates, List.length_append, length_endings, List.length_map]
  rfl

theorem mem_endings {suffix : String} {chain : List String} {name : String} :
    name ∈ endings suffix chain ↔
      ∃ part, part ≠ [] ∧ part <:+ chain ∧ name = String.join part ++ suffix := by
  induction chain with
  | nil => simp [endings]
  | cons first rest ih =>
      rw [endings, List.mem_append, ih, List.mem_singleton]
      simp only [List.suffix_cons_iff]
      constructor
      · rintro (⟨part, hne, hpart, rfl⟩ | rfl)
        · exact ⟨part, hne, .inr hpart, rfl⟩
        · exact ⟨first :: rest, List.cons_ne_nil first rest, .inl rfl, rfl⟩
      · rintro ⟨part, hne, rfl | hpart, rfl⟩
        · exact .inr rfl
        · exact .inl ⟨part, hne, hpart, rfl⟩

theorem mem_candidates {suffix : String} {chain : List String} {name : String} :
    name ∈ candidates suffix chain ↔ IsCandidate suffix chain name := by
  rw [candidates, List.mem_append, mem_endings, List.mem_map, IsCandidate]
  simp only [eq_comm]

/-- With ancestors in front the shorter ends are tried first. -/
theorem exists_endings_append (suffix : String) (ancestors part : List String) :
    ∃ more, endings suffix (ancestors ++ part) = endings suffix part ++ more := by
  induction ancestors with
  | nil => exact ⟨[], (List.append_nil _).symm⟩
  | cons ancestor rest ih =>
      obtain ⟨more, hmore⟩ := ih
      refine ⟨more ++ [String.join (ancestor :: (rest ++ part)) ++ suffix], ?_⟩
      rw [List.cons_append, endings, hmore, List.append_assoc]

theorem getElem?_endings (suffix : String) {chain : List String} {i : Nat}
    (hi : i < chain.length) :
    (endings suffix chain)[i]? =
      some (String.join (chain.drop (chain.length - 1 - i)) ++ suffix) := by
  induction chain with
  | nil => cases hi
  | cons name rest ih =>
      rw [endings]
      obtain hlt | rfl := Nat.lt_succ_iff_lt_or_eq.mp hi
      · have skipped : (name :: rest).length - 1 - i = rest.length - 1 - i + 1 := by
          rw [List.length_cons]
          omega
        rw [List.getElem?_append_left (by rwa [length_endings]), ih hlt, skipped,
          List.drop_succ_cons]
      · have whole : (name :: rest).length - 1 - rest.length = 0 := by
          rw [List.length_cons]
          omega
        rw [List.getElem?_append_right (Nat.le_of_eq (length_endings suffix rest)), length_endings,
          whole, Nat.sub_self]
        rfl

theorem getElem?_candidates_of_lt (suffix : String) {chain : List String} {i : Nat}
    (hi : i < chain.length) :
    (candidates suffix chain)[i]? =
      some (String.join (chain.drop (chain.length - 1 - i)) ++ suffix) := by
  rw [candidates, List.getElem?_append_left (by rwa [length_endings]), getElem?_endings suffix hi]

theorem getElem?_candidates_numbered (suffix : String) (chain : List String) {i : Nat}
    (hi : i < 8) :
    (candidates suffix chain)[chain.length + i]? =
      some (numbered (String.join chain ++ suffix) (i + 2)) := by
  have number : ∀ i < 8, numbers[i]? = some (i + 2) := by decide
  rw [candidates, List.getElem?_append_right (by rw [length_endings]; omega), length_endings,
    Nat.add_sub_cancel_left, List.getElem?_map, number i hi]
  rfl

/-! ### The first free candidate -/

/-- The first of the names that is free; `full` is named when none is. -/
def firstFree (t : SymbolTable) (full : String) (names : List String) :
    Except AllocationError String :=
  match names.find? fun name => !t.contains name with
  | some name => .ok name
  | none => .error (.exhausted full)

theorem firstFree_append_of_taken {t : SymbolTable} {full : String} {names : List String}
    (taken : ∀ name ∈ names, t.contains name = true) (more : List String) :
    t.firstFree full (names ++ more) = t.firstFree full more := by
  have none : (names.find? fun name => !t.contains name) = none := by
    simpa using taken
  rw [firstFree, List.find?_append, none, Option.none_or, firstFree]

theorem firstFree_cons_of_free {t : SymbolTable} {name : String} (full : String)
    (free : t.contains name = false) (more : List String) :
    t.firstFree full (name :: more) = .ok name := by
  rw [firstFree, List.find?_cons, free]
  rfl

theorem firstFree_ok {t : SymbolTable} {full : String} {names : List String} {name : String} :
    t.firstFree full names = .ok name ↔
      t.contains name = false ∧ ∃ before after, names = before ++ name :: after ∧
        ∀ c ∈ before, t.contains c = true := by
  have found : t.firstFree full names = .ok name ↔
      (names.find? fun name => !t.contains name) = some name := by
    rw [firstFree]
    cases names.find? fun name => !t.contains name <;> simp
  rw [found, List.find?_eq_some_iff_append]
  simp

theorem firstFree_error {t : SymbolTable} {full : String} {names : List String}
    {e : AllocationError} :
    t.firstFree full names = .error e ↔
      e = .exhausted full ∧ ∀ c ∈ names, t.contains c = true := by
  have missing : t.firstFree full names = .error e ↔
      e = .exhausted full ∧ (names.find? fun name => !t.contains name) = none := by
    rw [firstFree]
    cases names.find? fun name => !t.contains name <;> simp [eq_comm]
  rw [missing, List.find?_eq_none]
  simp

/-- The climb from a part of a chain, all shorter ends of which are taken, goes through the
candidates of the whole chain to the first free one. -/
theorem climb_eq_firstFree {t : SymbolTable} {suffix name : String} {ancestors rest : List String}
    (taken : ∀ c ∈ endings suffix rest, t.contains c = true) :
    t.climb (String.join (name :: rest) ++ suffix) ancestors =
      t.firstFree (String.join (ancestors.reverse ++ name :: rest) ++ suffix)
        (candidates suffix (ancestors.reverse ++ name :: rest)) := by
  induction ancestors generalizing name rest with
  | nil =>
      rw [List.reverse_nil, List.nil_append, climb, candidates, endings, List.append_assoc,
        firstFree_append_of_taken taken]
      split
      next hc =>
        rw [firstFree_append_of_taken (by simpa using hc)]
        rfl
      next hc => exact (firstFree_cons_of_free _ (by simpa using hc) _).symm
  | cons ancestor others ih =>
      rw [List.reverse_cons, List.append_assoc, List.singleton_append, climb]
      split
      next hc =>
        rw [← String.append_assoc, ← String.join_cons]
        refine ih fun c hmem => ?_
        rw [endings, List.mem_append, List.mem_singleton] at hmem
        obtain hmem | rfl := hmem
        · exact taken c hmem
        · exact hc
      next hc =>
        obtain ⟨more, hmore⟩ := exists_endings_append suffix (others.reverse ++ [ancestor])
          (name :: rest)
        rw [List.append_assoc, List.singleton_append] at hmore
        rw [candidates, hmore, endings, List.append_assoc, List.append_assoc,
          firstFree_append_of_taken taken]
        exact (firstFree_cons_of_free _ (by simpa using hc) _).symm

theorem allocate_eq_firstFree (t : SymbolTable) (suffix : String) {chain : List String}
    (named : chain ≠ []) :
    t.allocate suffix chain =
      t.firstFree (String.join chain ++ suffix) (candidates suffix chain) := by
  unfold allocate
  split
  next hr => exact absurd (List.reverse_eq_nil_iff.mp hr) named
  next last ancestors hr =>
    have hchain : chain = ancestors.reverse ++ [last] := by
      rw [← List.reverse_reverse chain, hr, List.reverse_cons]
    have none : ∀ c ∈ endings suffix ([] : List String), t.contains c = true := by simp [endings]
    have climbs : t.climb (String.join [last] ++ suffix) ancestors = _ := climb_eq_firstFree none
    rw [String.join_cons, String.join_nil, String.append_empty, ← hchain] at climbs
    exact climbs

/-- An allocation gives the first free name among the ends of the chain, from the innermost name
to the whole chain, and the whole chain with the numbers from 2 to 9; it fails with the name of the
whole chain exactly when all of them are taken. -/
theorem allocate_first_free (t : SymbolTable) (suffix : String) {chain : List String}
    (named : chain ≠ []) :
    (∀ name, t.allocate suffix chain = .ok name ↔
      t.contains name = false ∧ ∃ before after, candidates suffix chain = before ++ name :: after ∧
        ∀ c ∈ before, t.contains c = true) ∧
    (∀ e, t.allocate suffix chain = .error e ↔
      e = .exhausted (String.join chain ++ suffix) ∧
        ∀ c ∈ candidates suffix chain, t.contains c = true) ∧
    (candidates suffix chain).length = chain.length + 8 ∧
    (∀ i < chain.length, (candidates suffix chain)[i]? =
      some (String.join (chain.drop (chain.length - 1 - i)) ++ suffix)) ∧
    ∀ i < 8, (candidates suffix chain)[chain.length + i]? =
      some (String.join chain ++ suffix ++ "_" ++ toString (i + 2)) := by
  rw [allocate_eq_firstFree t suffix named]
  exact ⟨fun _ => firstFree_ok, fun _ => firstFree_error, length_candidates suffix chain,
    fun _ hi => getElem?_candidates_of_lt suffix hi,
    fun _ hi => getElem?_candidates_numbered suffix chain hi⟩

/-- A chain in which a name is empty and one is repeated. -/
def repeatedChain : List String := ["K", "", "A", "A"]

/-- The names for the repeated chain that are tried before the number 3. -/
def repeatedTaken : List String :=
  ["AParameters", "AAParameters", "AAParameters", "KAAParameters", "KAAParameters_2"]

/-- After all ends of the chain and the number 2 comes the number 3; with the numbers up to 9 taken
nothing is left. -/
theorem allocate_first_free_repeated :
    repeatedChain ≠ [] ∧
    (ofNames repeatedTaken).allocate "Parameters" repeatedChain = .ok "KAAParameters_3" ∧
    (ofNames (candidates "Parameters" repeatedChain)).allocate "Parameters" repeatedChain =
      .error (.exhausted "KAAParameters") ∧
    (candidates "Parameters" repeatedChain).length = 12 ∧
    (candidates "Parameters" repeatedChain)[2]? = some "AAParameters" ∧
    (candidates "Parameters" repeatedChain)[11]? = some "KAAParameters_9" := by
  have named : repeatedChain ≠ [] := List.cons_ne_nil _ _
  obtain ⟨gives, -, length, ends, numberedEnds⟩ :=
    allocate_first_free (ofNames repeatedTaken) "Parameters" named
  obtain ⟨-, fails, -⟩ :=
    allocate_first_free (ofNames (candidates "Parameters" repeatedChain)) "Parameters" named
  refine ⟨named, (gives _).mpr ⟨by decide +kernel, repeatedTaken, ?_⟩,
    (fails _).mpr ⟨by decide +kernel, by decide +kernel⟩, length, ends 2 (by decide),
    numberedEnds 7 (by decide)⟩
  exact ⟨(candidates "Parameters" repeatedChain).drop 6, by decide +kernel, by decide +kernel⟩

end ResourceTypes.SymbolTable
