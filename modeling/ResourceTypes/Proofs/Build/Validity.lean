import Mathlib.Data.List.Perm.Subperm
import ResourceTypes.Proofs.Build.Ignored
import ResourceTypes.Proofs.Build.Replay

/-! # Valid configurations after a build

A build keeps all that the rules of a configuration are about, but for one thing: it registers the
canonical paths of ignored attributes, and these count against the limit of ignored fields
together with the entries themselves.  The limit is a rule of `Config.check` alone; no build asks
for it.

`newlyIgnored` lists the paths that a build adds.  A valid configuration is valid after the build
exactly when they fit (`valid_of_build`).  There are no more of them than ignored entries, whose
canonical paths they are (`length_newlyIgnored_le`). -/

namespace ResourceTypes

/-- The canonical paths that are registered for the attributes and were not before. -/
def newlyIgnored (l : LateInitializer) (rs : List Reached) : List CanonicalPath :=
  ((ignoredIn l rs).filter fun p => !l.ignoresCanonical p).dedup

/-- The ignored fields of a configuration in both forms. -/
def LateInitializer.size (l : LateInitializer) : Nat :=
  l.ignoredFields.length + l.ignoredCanonical.size

theorem FieldPath.canonical_congr {p q : FieldPath} (h : p.fields = q.fields) :
    p.canonical = q.canonical := by
  rw [canonical, h, canonical]

theorem newlyIgnored_subset (l : LateInitializer) (rs : List Reached) :
    newlyIgnored l rs ⊆ l.ignoredFields.map FieldPath.canonical := by
  intro p hp
  have mem := (List.mem_filter.mp (List.mem_dedup.mp hp)).1
  obtain ⟨r, -, ⟨q, hq, hfields⟩, rfl⟩ := mem_ignoredIn.mp mem
  exact List.mem_map.mpr ⟨q, hq, FieldPath.canonical_congr hfields⟩

theorem length_newlyIgnored_le (l : LateInitializer) (rs : List Reached) :
    (newlyIgnored l rs).length ≤ l.ignoredFields.length := by
  have bound := (List.subperm_of_subset (List.nodup_dedup _) (newlyIgnored_subset l rs)).length_le
  rwa [List.length_map] at bound

/-! ### What a build keeps -/

/-- With name, kind and references of a valid configuration only the limit of ignored fields can be
broken. -/
theorem Config.Valid.check_eq {c d : Config} (valid : c.Valid) (name : d.name = c.name)
    (kind : d.kind = c.kind) (references : d.references = c.references) :
    d.check =
      if maxIgnoredFields < d.lateInitializer.size then some .manyIgnoredFields else none := by
  rw [Valid, check] at valid
  rw [check, name, kind, references, LateInitializer.size]
  split_ifs at valid ⊢ <;> first | rfl | assumption

section build

open Build

variable {schema : Resource} {config : Config} {symbols : SymbolTable} {g : Generated}

theorem ignores_build (h : (build schema config symbols).outcome = .ok g) :
    (build schema config symbols).config.lateInitializer.ignoredCanonical =
      config.lateInitializer.ignoredCanonical.addAll
        (ignoredIn config.lateInitializer schema.reached) := by
  obtain ⟨attributes⟩ := schema
  obtain ⟨opened, filled, u, v, below, refs, opens, visits, closes⟩ := walk_of_build h
  have hopened := ignores_openLevel opens
  have hvisited := visits.ignores .root [] (Location.root_eq_ofPath config.kind) hopened.fields
  have all := (hopened.trans hvisited).trans (ignores_closeLevel closes)
  rw [config_build, all.canonical, List.append_nil, List.nil_append, Resource.reached,
    Resource.reachedFrom]
  rfl

theorem size_build (h : (build schema config symbols).outcome = .ok g) :
    (build schema config symbols).config.lateInitializer.size =
      config.lateInitializer.size +
        (newlyIgnored config.lateInitializer schema.reached).length := by
  obtain ⟨-, -, -, fields⟩ := (replay_build schema config symbols).frame
  rw [LateInitializer.size, fields, ignores_build h, OrderedSet.size_addAll, LateInitializer.size,
    newlyIgnored, Nat.add_assoc]
  rfl

/-! ### Main statement -/

/-- A valid configuration stays valid exactly when the new paths fit with the ignored fields that
it has; it breaks no other rule.  They fit when there is room for one path for each entry. -/
theorem valid_of_build (valid : config.Valid)
    (h : (build schema config symbols).outcome = .ok g) :
    ((build schema config symbols).config.Valid ↔
      config.lateInitializer.ignoredFields.length + config.lateInitializer.ignoredCanonical.size +
        (newlyIgnored config.lateInitializer schema.reached).length ≤ maxIgnoredFields) ∧
    (¬ (build schema config symbols).config.Valid →
      (build schema config symbols).config.check = some .manyIgnoredFields) ∧
    (2 * config.lateInitializer.ignoredFields.length +
      config.lateInitializer.ignoredCanonical.size ≤ maxIgnoredFields →
        (build schema config symbols).config.Valid) := by
  obtain ⟨name, kind, references, -⟩ := (replay_build schema config symbols).frame
  have check := valid.check_eq name kind references
  rw [size_build h] at check
  have fits : (build schema config symbols).config.Valid ↔
      config.lateInitializer.size + (newlyIgnored config.lateInitializer schema.reached).length ≤
        maxIgnoredFields := by
    rw [Config.Valid, check, ← Nat.not_lt]
    split_ifs with exceeds <;> simp [exceeds]
  refine ⟨fits, fun broken => ?_, fun room => fits.mpr ?_⟩
  · rw [check, if_pos (Nat.lt_of_not_le (mt fits.mpr broken))]
  · have bound := length_newlyIgnored_le config.lateInitializer schema.reached
    rw [LateInitializer.size]
    omega

end build

/-- A configuration with as many ignored fields as there may be. -/
def fullConfig : Config :=
  { name := "k", kind := "K",
    lateInitializer.ignoredFields := List.replicate maxIgnoredFields ⟨[.field "a"]⟩ }

/-- An attribute that can be set. -/
def settableSchema : Resource :=
  .mk [("a", .mk { kind := .string, optional := true } .unset)]

/-- A valid configuration that is invalid after a build: the path of the attribute was not counted
before. -/
theorem registration_exceeds_limit :
    fullConfig.Valid ∧ (∃ g, (build settableSchema fullConfig .empty).outcome = .ok g) ∧
      ¬ (build settableSchema fullConfig .empty).config.Valid := by
  obtain ⟨g, built, -⟩ := BuildResult.exists_ok (f := fun g => g.types.length)
    (show (build settableSchema fullConfig .empty).outcome.toOption.map _ = some 2 by
      decide +kernel)
  exact ⟨by decide +kernel, ⟨g, built⟩, by decide +kernel⟩

/-- Entries that differ by wildcards only need room for one path. -/
theorem valid_of_build_wildcards :
    ∃ config : Config, config.Valid ∧
      config.lateInitializer.ignoredFields = [⟨[.field "a"]⟩, ⟨[.field "a", .wildcard]⟩] ∧
      (newlyIgnored config.lateInitializer settableSchema.reached).length = 1 ∧
      (build settableSchema config .empty).config.Valid := by
  let config : Config :=
    { name := "k", kind := "K",
      lateInitializer.ignoredFields := [⟨[.field "a"]⟩, ⟨[.field "a", .wildcard]⟩] }
  obtain ⟨g, built, -⟩ := BuildResult.exists_ok (f := fun g => g.types.length)
    (show (build settableSchema config .empty).outcome.toOption.map _ = some 2 by decide +kernel)
  have valid : config.Valid := by decide +kernel
  have one : (newlyIgnored config.lateInitializer settableSchema.reached).length = 1 := by
    decide +kernel
  have fits := (valid_of_build valid built).1.mpr (by rw [one]; decide +kernel)
  exact ⟨config, valid, rfl, one, fits⟩

end ResourceTypes
