import ResourceTypes.Proofs.Build.Walk

/-! # The names of generated types

The names of the types of a build are determined by three things alone: the skeleton of the
schema, the kind and the table of names that are taken.  The table names the levels in pre-order,
each by its own chain, and the types come in post-order, two for each level
(`typeNames_follow_levels`).  Since a name is taken as soon as it is given, all names are
distinct and none was taken before (`typeNames_distinct`). -/

namespace ResourceTypes

open SymbolTable

/-- A forest of chains with the names that a table gives for them in pre-order. -/
def NamedBy (symbols : SymbolTable) (levels : Forest (List String × TypeNames)) : Prop :=
  ∃ table, symbols.nameLevels (levels.preorder.map Prod.fst) =
    .ok (levels.preorder.map Prod.snd, table)

/-- The names of all types of named levels in the order in which they are emitted. -/
def emittedNames (levels : Forest (List String × TypeNames)) : List String :=
  levels.postorder.flatMap fun v => v.2.both

/-- A table gives the levels of a forest of chains one naming only. -/
theorem NamedBy.unique {symbols : SymbolTable} {levels levels' : Forest (List String × TypeNames)}
    (h : NamedBy symbols levels) (h' : NamedBy symbols levels')
    (chains : levels.map Prod.fst = levels'.map Prod.fst) : levels = levels' := by
  obtain ⟨table, h⟩ := h
  obtain ⟨table', h'⟩ := h'
  have hfst : levels.preorder.map Prod.fst = levels'.preorder.map Prod.fst := by
    rw [← Forest.preorder_map, chains, Forest.preorder_map]
  rw [hfst, h'] at h
  have hsnd : levels.preorder.map Prod.snd = levels'.preorder.map Prod.snd := by
    exact (Prod.mk.inj (Except.ok.inj h)).1.symm
  have hpre : levels.preorder = levels'.preorder :=
    (List.zip_of_prod hfst hsnd).trans (List.zip_of_prod rfl rfl).symm
  exact Forest.eq_of_preorder_eq chains hpre

theorem NamedBy.of_sameNames {symbols symbols' : SymbolTable}
    {levels : Forest (List String × TypeNames)} (same : symbols.SameNames symbols')
    (h : NamedBy symbols levels) : NamedBy symbols' levels := by
  obtain ⟨table, h⟩ := h
  exact same.nameLevels h

theorem length_emittedNames (levels : Forest (List String × TypeNames)) :
    (emittedNames levels).length = 2 * (levels.map Prod.fst).preorder.length := by
  rw [emittedNames, List.length_flatMap, Forest.preorder_map, List.length_map,
    ← levels.postorder_perm_preorder.length_eq]
  simp [TypeNames.both, Nat.mul_comm]

theorem NamedBy.nodup {symbols : SymbolTable} {levels : Forest (List String × TypeNames)}
    (h : NamedBy symbols levels) :
    (emittedNames levels).Nodup ∧ ∀ x ∈ emittedNames levels, symbols.contains x = false := by
  obtain ⟨table, h⟩ := h
  obtain ⟨hnodup, hfree⟩ := nameLevels_fresh h
  rw [List.flatMap_map] at hnodup hfree
  have hperm : (emittedNames levels).Perm (levels.preorder.flatMap fun v => v.2.both) :=
    levels.postorder_perm_preorder.flatMap_right _
  exact ⟨hperm.nodup_iff.mpr hnodup, fun x hx => hfree x (hperm.mem_iff.mp hx)⟩

theorem NamedBy.candidates {symbols : SymbolTable} {levels : Forest (List String × TypeNames)}
    (h : NamedBy symbols levels) : ∀ v ∈ levels.postorder,
      IsCandidate "Parameters" v.1 v.2.parameters ∧
        IsCandidate "Observation" v.1 v.2.observation := by
  obtain ⟨table, h⟩ := h
  have key := isCandidate_of_nameLevels h
  rw [List.forall₂_map_left_iff, List.forall₂_map_right_iff, List.forall₂_same] at key
  exact fun v hv => key v (Forest.mem_postorder.mp hv)

namespace Built

variable {schema : Resource} {config : Config} {symbols : SymbolTable} {g : Generated}
  {levels : Forest BuiltLevel}

theorem namedBy (h : Built schema config symbols g levels) :
    NamedBy symbols (levels.map fun b => (b.chain, b.names)) := by
  obtain ⟨table, hn⟩ := h.named
  refine ⟨table, ?_⟩
  simpa [Function.comp_def] using hn

theorem map_fst_named (h : Built schema config symbols g levels) :
    (levels.map fun b => (b.chain, b.names)).map Prod.fst = schema.chains config.kind := by
  rw [Forest.map_map]
  exact h.chains

theorem map_name_types (h : Built schema config symbols g levels) :
    g.types.map TypeDecl.name = emittedNames (levels.map fun b => (b.chain, b.names)) := by
  rw [h.types, emittedNames, Forest.postorder_map, List.map_flatMap, List.flatMap_map]
  rfl

end Built

theorem chains_eq_of_skeleton_eq {r r' : Resource} (kind : String)
    (h : r'.skeleton = r.skeleton) : r'.chains kind = r.chains kind := by
  rw [Resource.chains, Resource.chains, h]

/-! ### Main statements -/

/-- The names of the types of a build are pairwise distinct, none of them was taken before, and
every level has candidates of its own chain. -/
theorem typeNames_distinct {schema : Resource} {config : Config} {symbols : SymbolTable}
    {g : Generated} (h : (build schema config symbols).outcome = .ok g) :
    (g.types.map TypeDecl.name).Nodup ∧
      (∀ t ∈ g.types, symbols.contains t.name = false) ∧
      ∃ levels : Forest (List String × TypeNames),
        levels.map Prod.fst = schema.chains config.kind ∧
          g.types.map TypeDecl.name = emittedNames levels ∧
          ∀ v ∈ levels.postorder, IsCandidate "Parameters" v.1 v.2.parameters ∧
            IsCandidate "Observation" v.1 v.2.observation := by
  obtain ⟨levels, hb⟩ := built_of_build h
  obtain ⟨hnodup, hfree⟩ := hb.namedBy.nodup
  refine ⟨hb.map_name_types ▸ hnodup, fun t ht => hfree t.name ?_,
    _, hb.map_fst_named, hb.map_name_types, hb.namedBy.candidates⟩
  rw [← hb.map_name_types]
  exact List.mem_map_of_mem ht

/-- Attributes `a`, with `b` below it, and `a_b`: two chains of names that read the same. -/
def crossedSchema : Resource :=
  .mk
    [("a", .mk { kind := .list }
        (.resource (.mk [("b", .mk { kind := .set } (.resource .empty))]))),
      ("a_b", .mk { kind := .map } (.resource .empty))]

/-- A table that leaves neither the root nor `b` its first name. -/
def crossedTable : SymbolTable := .ofNames ["KParameters", "BParameters"]

theorem typeNames_distinct_crossed :
    ∃ g, (build crossedSchema { name := "k", kind := "K" } crossedTable).outcome = .ok g ∧
      g.types.map TypeDecl.name =
        ["ABParameters", "BObservation", "AParameters", "AObservation", "KABParameters",
          "ABObservation", "KParameters_2", "KObservation"] ∧
      (g.types.map TypeDecl.name).Nodup ∧
      ∀ t ∈ g.types, crossedTable.contains t.name = false := by
  obtain ⟨g, hg, hnames⟩ := BuildResult.exists_ok (f := fun g => g.types.map TypeDecl.name)
    (show (build crossedSchema { name := "k", kind := "K" } crossedTable).outcome.toOption.map _ =
      some ["ABParameters", "BObservation", "AParameters", "AObservation", "KABParameters",
        "ABObservation", "KParameters_2", "KObservation"] by decide +kernel)
  obtain ⟨hnodup, hfree, -⟩ := typeNames_distinct hg
  exact ⟨g, hg, hnames, hnodup, hfree⟩

/-- Two types come for every level, in post-order and with those of the root last, under names
that the table gives in pre-order; so they are the same for every schema of this skeleton. -/
theorem typeNames_follow_levels {schema : Resource} {config : Config} {symbols : SymbolTable}
    {g : Generated} (h : (build schema config symbols).outcome = .ok g) :
    (∃ levels : Forest (List String × TypeNames),
      levels.map Prod.fst = schema.chains config.kind ∧ NamedBy symbols levels ∧
        g.types.map TypeDecl.name = emittedNames levels) ∧
      g.types.length = 2 * (schema.chains config.kind).preorder.length ∧
      g.forProvider + 2 = g.types.length ∧ g.atProvider + 1 = g.types.length ∧
      (schema.Ordered → schema.skeleton.Increasing) ∧
      ∀ schema' config' symbols' g', schema'.skeleton = schema.skeleton →
        config'.kind = config.kind → symbols'.SameNames symbols →
        (build schema' config' symbols').outcome = .ok g' →
        g'.types.map TypeDecl.name = g.types.map TypeDecl.name ∧
          g'.forProvider = g.forProvider ∧ g'.atProvider = g.atProvider := by
  obtain ⟨levels, hb⟩ := built_of_build h
  obtain ⟨hfor, hat⟩ := hb.handles
  have hlen : g.types.length = 2 * (schema.chains config.kind).preorder.length := by
    rw [← hb.map_fst_named, ← length_emittedNames, ← hb.map_name_types, List.length_map]
  refine ⟨⟨_, hb.map_fst_named, hb.namedBy, hb.map_name_types⟩, hlen, hfor, hat,
    Resource.increasing_skeleton, fun schema' config' symbols' g' hs hk ht h' => ?_⟩
  obtain ⟨levels', hb'⟩ := built_of_build h'
  obtain ⟨hfor', hat'⟩ := hb'.handles
  have hchains : (levels'.map fun b => (b.chain, b.names)).map Prod.fst =
      (levels.map fun b => (b.chain, b.names)).map Prod.fst := by
    rw [hb'.map_fst_named, hb.map_fst_named, hk, chains_eq_of_skeleton_eq config.kind hs]
  have hnames : g'.types.map TypeDecl.name = g.types.map TypeDecl.name := by
    rw [hb'.map_name_types, hb.map_name_types,
      (hb'.namedBy.of_sameNames ht).unique hb.namedBy hchains]
  have heq : g'.types.length = g.types.length := by simpa using congrArg List.length hnames
  exact ⟨hnames, by omega, by omega⟩

/-- A schema of the skeleton of `crossedSchema` in which `b` is reached through an element schema
and only observed, and with attributes that lead to no resource. -/
def crossedSchema' : Resource :=
  .mk
    [("a", .mk { kind := .map, optional := true }
        (.resource (.mk
          [("b", .mk { kind := .list, computed := true }
            (.schema (.mk { kind := .set } (.resource .empty))))]))),
      ("a_b", .mk { kind := .list, computed := true } (.resource
        (.mk [("c", .mk { kind := .string, sensitive := true } .unset)]))),
      ("d", .mk { kind := .int, description := "A number." } (.resource .empty))]

theorem typeNames_follow_levels_crossed :
    ∃ g g', (build crossedSchema { name := "k", kind := "K" } crossedTable).outcome = .ok g ∧
      (build crossedSchema' { name := "l", kind := "K" } crossedTable).outcome = .ok g' ∧
      g.types.length = 8 ∧ g'.types.map TypeDecl.name = g.types.map TypeDecl.name ∧
      g'.forProvider = g.forProvider ∧ g'.atProvider = g.atProvider := by
  obtain ⟨g, hg, hlen⟩ := BuildResult.exists_ok (f := fun g => g.types.length)
    (show (build crossedSchema { name := "k", kind := "K" } crossedTable).outcome.toOption.map _ =
      some 8 by decide +kernel)
  obtain ⟨g', hg', -⟩ := BuildResult.exists_ok (f := fun g => g.types.length)
    (show (build crossedSchema' { name := "l", kind := "K" } crossedTable).outcome.toOption.map _ =
      some 8 by decide +kernel)
  obtain ⟨-, -, -, -, -, hsame⟩ := typeNames_follow_levels hg
  have hskeleton : crossedSchema'.skeleton = crossedSchema.skeleton := by decide +kernel
  exact ⟨g, g', hg, hg', hlen,
    hsame crossedSchema' { name := "l", kind := "K" } crossedTable g' hskeleton rfl (fun _ => rfl)
      hg'⟩

end ResourceTypes
