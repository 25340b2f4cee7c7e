import ResourceTypes.Proofs.Build.Faults
import ResourceTypes.Proofs.Build.Registers
import ResourceTypes.Proofs.Path.Spelling

/-! # The registry of sensitive fields

A build that succeeds registers one entry for each sensitive attribute that it reaches
(`registryOf`): its path with all wildcards, and under it the target, which says where the secret
is found.  An attribute may have several variants, but those of a sensitive one agree on where it
is placed, so that they register the same entry (`registers_placed`).  Entries of inner resources
come before the entry of the attribute that leads to them, so the entries of a walk are those of
the reached attributes in another order (`Walk.registers`).

By `registry_of_build` the entries have distinct keys when the spelling of every name shows where
it ends, and then each of them is found in the registry, which has no other new ones. -/

namespace ResourceTypes

open Build

/-! ### Entries -/

/-- Where the secret of a sensitive attribute is found. -/
def Reached.target (r : Reached) : String :=
  if r.attr.isObservation then "status.atProvider." ++ r.path.lowerCamel.spelled
  else "spec.forProvider." ++ r.path.lowerCamel.spelled ++ "SecretRef"

/-- The entry of an attribute, if it is sensitive. -/
def Reached.entries (r : Reached) : List (String × String) :=
  if r.attr.traits.sensitive then [(r.path.spelled, r.target)] else []

/-- The entries of the sensitive attributes in a list. -/
def registryOf (rs : List Reached) : List (String × String) := rs.flatMap Reached.entries

theorem mem_registryOf {rs : List Reached} {e : String × String} :
    e ∈ registryOf rs ↔
      ∃ r ∈ rs, r.attr.traits.sensitive = true ∧ e = (r.path.spelled, r.target) := by
  simp [registryOf, Reached.entries]

theorem keys_registryOf_sublist (rs : List Reached) :
    ((registryOf rs).map Prod.fst).Sublist (rs.map fun r => r.path.spelled) := by
  induction rs with
  | nil => exact .slnil
  | cons r rs ih =>
      rw [registryOf, List.flatMap_cons, List.map_append, Reached.entries]
      cases r.attr.traits.sensitive with
      | false => exact ih.cons _
      | true => exact ih.cons_cons _

/-! ### What one attribute registers -/

/-- A placed attribute registers its entry when it is sensitive, and nothing otherwise. -/
theorem registers_placed {kind : String} {r : Reached} {names : Option TypeNames} {c : Config}
    {comment : Comment} {level level' : Level} {s t : BuildState} (sound : ∀ e, ¬ r.Fault kind e)
    (hn : names.isSome = r.attr.nested?.isSome)
    (h : Returns (placeVariants
      (.ofAttribute c (.ofSnake r.name) (.ofPath kind r.path) r.attr.traits comment)
      (r.attr.variants names) level) s level' t) : Registers r.entries s t := by
  have hreg := registers_placeVariants h
  cases hs : r.attr.traits.sensitive with
  | false =>
      have hnone : ∀ v, Site.entries
          (.ofAttribute c (.ofSnake r.name) (.ofPath kind r.path) r.attr.traits comment) v =
            [] := by
        simp [Site.entries, Site.ofAttribute, hs]
      rw [List.flatMap_eq_nil_iff.mpr fun v _ => hnone v] at hreg
      simpa [Reached.entries, hs] using hreg
  | true =>
      have hone : ∀ v ∈ r.attr.variants names, Site.entries
          (.ofAttribute c (.ofSnake r.name) (.ofPath kind r.path) r.attr.traits comment) v =
            [(r.path.spelled, r.target)] := by
        intro v hv
        simp only [Site.entries, Site.ofAttribute, hs, if_true, Site.secretTarget, Reached.target,
          r.isObservation_of_sensitive sound hs v hv]
        rfl
      have hne := Attribute.variants_ne_nil (p := r.path) hn fun v hv e he => sound e (.node hv he)
      refine ⟨?_, hreg.references⟩
      rw [hreg.sensitive, Reached.entries, if_pos hs, OrderedMap.insertAll_cons,
        OrderedMap.insertAll_nil]
      refine OrderedMap.insertAll_of_forall_eq _ ?_ fun e he => ?_
      · obtain ⟨v, hv⟩ := List.exists_mem_of_ne_nil _ hne
        exact List.ne_nil_of_mem
          (List.mem_flatMap_of_mem hv (by rw [hone v hv]; exact List.mem_singleton_self _))
      · obtain ⟨v, hv, he⟩ := List.mem_flatMap.mp he
        rw [hone v hv] at he
        exact List.mem_singleton.mp he

/-! ### What a build registers -/

/-- A walk registers the entries of the attributes that it reaches. -/
theorem Walk.registers {attributes : List (String × Attribute)} {l : Location}
    {level level' : Level} {s t : BuildState} {levels : Forest BuiltLevel} {kind : String}
    {p : FieldPath} {above : List Attribute} (h : Walk attributes l level s levels level' t)
    (hl : l = .ofPath kind p) (sound : SoundAttributes kind (reachedIn attributes p above)) :
    ∃ entries, entries.Perm (registryOf (reachedIn attributes p above)) ∧
      Registers entries s t := by
  induction h generalizing p above with
  | nil => exact ⟨[], by simp [registryOf], .refl _⟩
  | flat leads _ registered placed _ ih =>
      subst hl
      rw [Location.field_ofPath] at registered placed
      rw [reachedIn_cons_flat _ p above leads] at sound ⊢
      obtain ⟨hfirst, hrest⟩ := List.forall_mem_cons.mp sound
      obtain ⟨entries, hperm, hreg⟩ := ih rfl hrest
      have hplaced := registers_placed hfirst (by rw [leads]; rfl) placed
      refine ⟨_, ?_, ((registers_registerIgnored registered).trans hplaced).trans hreg⟩
      exact hperm.append_left _
  | nested leads _ registered opens _ closes placed _ ihb iho =>
      subst hl
      rw [Location.field_ofPath] at registered opens closes placed
      rw [reachedIn_cons_nested _ p above leads] at sound ⊢
      obtain ⟨hfirst, hothers⟩ := List.forall_mem_cons.mp sound
      obtain ⟨hbelow, hrest⟩ := List.forall_mem_append.mp hothers
      obtain ⟨below, hpermb, hregb⟩ := ihb (by simp) hbelow
      obtain ⟨beside, hpermo, hrego⟩ := iho rfl hrest
      have hlevel := ((registers_openLevel opens).trans hregb).trans (registers_closeLevel closes)
      have hplaced := registers_placed hfirst (by rw [leads]; rfl) placed
      refine ⟨_, ?_, (((registers_registerIgnored registered).trans hlevel).trans hplaced).trans
        hrego⟩
      -- The entries of the inner resource come before that of the attribute.
      simp only [List.nil_append, List.append_nil, registryOf, List.flatMap_cons,
        List.flatMap_append]
      rw [← List.append_assoc]
      exact (List.perm_append_comm.trans (hpermb.append_left _)).append hpermo

/-- A build registers the entries of the attributes that it reaches. -/
theorem registers_of_build {schema : Resource} {config : Config} {symbols : SymbolTable}
    {g : Generated} (h : (build schema config symbols).outcome = .ok g) :
    ∃ entries, entries.Perm (registryOf schema.reached) ∧
      (build schema config symbols).config.sensitive = config.sensitive.insertAll entries := by
  have sound := sound_of_build h
  obtain ⟨opened, filled, u, v, below, refs, opens, visits, closes⟩ := walk_of_build h
  obtain ⟨attributes⟩ := schema
  rw [Resource.reached, Resource.reachedFrom] at sound ⊢
  obtain ⟨entries, hperm, hreg⟩ := visits.registers (Location.root_eq_ofPath _) sound
  have hall := ((registers_openLevel opens).trans hreg).trans (registers_closeLevel closes)
  refine ⟨entries, hperm, ?_⟩
  rw [config_build, hall.sensitive]
  simp

/-! ### Main statement -/

theorem nodup_spelled_reached {schema : Resource} (ordered : schema.Ordered)
    (names : ∀ r ∈ schema.reached, FieldPath.Spellable r.name) :
    (schema.reached.map fun r => r.path.spelled).Nodup := by
  have hpaths : (schema.reached.map Reached.path).Nodup := by
    obtain ⟨attributes⟩ := schema
    rw [Resource.reached, Resource.reachedFrom]
    exact nodup_paths_reachedIn .root [] ordered
  have rooted : ∀ r ∈ schema.reached, r.path.Rooted ∧
      ∀ n ∈ r.path.fields, FieldPath.Spellable n := by
    intro r hr
    obtain ⟨hrooted, hnames⟩ := path_of_mem_reached hr
    refine ⟨hrooted, fun n hn => ?_⟩
    obtain ⟨r', hr', rfl⟩ := hnames n hn
    exact names r' hr'
  rw [show (fun r : Reached => r.path.spelled) = FieldPath.spelled ∘ Reached.path from rfl,
    ← List.map_map]
  refine hpaths.map_on fun p hp q hq hpq => ?_
  obtain ⟨r, hr, rfl⟩ := List.mem_map.mp hp
  obtain ⟨r', hr', rfl⟩ := List.mem_map.mp hq
  exact FieldPath.spelled_injective (rooted r hr).1 (rooted r' hr').1 (rooted r hr).2
    (rooted r' hr').2 hpq

/-- When all names are spellable, the entries of a build have keys of their own, so that their order
does not matter. -/
theorem sensitive_of_build {schema : Resource} {config : Config} {symbols : SymbolTable}
    {g : Generated} (h : (build schema config symbols).outcome = .ok g) (ordered : schema.Ordered)
    (names : ∀ r ∈ schema.reached, FieldPath.Spellable r.name) :
    (build schema config symbols).config.sensitive =
        config.sensitive.insertAll (registryOf schema.reached) ∧
      ((registryOf schema.reached).map Prod.fst).Nodup := by
  have hnodup : ((registryOf schema.reached).map Prod.fst).Nodup :=
    (nodup_spelled_reached ordered names).sublist (keys_registryOf_sublist schema.reached)
  obtain ⟨entries, hperm, hreg⟩ := registers_of_build h
  exact ⟨hreg.trans (OrderedMap.insertAll_perm _ hnodup hperm), hnodup⟩

/-- The target of a sensitive attribute is found at its path. -/
theorem targetFor?_of_build {schema : Resource} {config : Config} {symbols : SymbolTable}
    {g : Generated} (h : (build schema config symbols).outcome = .ok g) (ordered : schema.Ordered)
    (names : ∀ r ∈ schema.reached, FieldPath.Spellable r.name) {r : Reached}
    (hr : r ∈ schema.reached) (hs : r.attr.traits.sensitive = true) :
    (build schema config symbols).config.targetFor? r.path.spelled = some r.target := by
  obtain ⟨hall, hnodup⟩ := sensitive_of_build h ordered names
  rw [Config.targetFor?, hall]
  exact OrderedMap.get?_insertAll_of_mem _ hnodup (e := (r.path.spelled, r.target))
    (mem_registryOf.mpr ⟨r, hr, hs, rfl⟩)

/-- A build registers the target of each sensitive attribute at the path of the attribute, each
at a path of its own, and changes no other entry. -/
theorem registry_of_build {schema : Resource} {config : Config} {symbols : SymbolTable}
    {g : Generated} (h : (build schema config symbols).outcome = .ok g) (ordered : schema.Ordered)
    (names : ∀ r ∈ schema.reached, r.name ≠ "" ∧ '.' ∉ r.name.toList ∧ '[' ∉ r.name.toList) :
    (build schema config symbols).config.sensitive =
        config.sensitive.insertAll (registryOf schema.reached) ∧
      ((registryOf schema.reached).map Prod.fst).Nodup ∧
      (∀ r ∈ schema.reached, r.attr.traits.sensitive = true →
        (build schema config symbols).config.targetFor? r.path.spelled = some r.target) ∧
      ∀ key, (∀ r ∈ schema.reached, r.attr.traits.sensitive = true → key ≠ r.path.spelled) →
        (build schema config symbols).config.targetFor? key = config.targetFor? key := by
  have spellable : ∀ r ∈ schema.reached, FieldPath.Spellable r.name := fun r hr =>
    ⟨(names r hr).1, (names r hr).2.1, (names r hr).2.2⟩
  obtain ⟨hall, hnodup⟩ := sensitive_of_build h ordered spellable
  refine ⟨hall, hnodup, fun r hr hs => targetFor?_of_build h ordered spellable hr hs,
    fun key hkey => ?_⟩
  rw [Config.targetFor?, hall, OrderedMap.get?_insertAll_of_not_mem]
  · rfl
  · intro hmem
    obtain ⟨e, he, rfl⟩ := List.mem_map.mp hmem
    obtain ⟨r, hr, hs, rfl⟩ := mem_registryOf.mp he
    exact hkey r hr hs rfl

/-- A secret that is only observed, and one in a nested resource that can be set. -/
def vaultSchema : Resource :=
  .mk
    [("access_key", .mk { kind := .string, computed := true, sensitive := true } .unset),
      ("auth_rule", .mk { kind := .list, optional := true }
        (.resource (.mk
          [("token", .mk { kind := .string, optional := true, sensitive := true } .unset)])))]

theorem ordered_vaultSchema : vaultSchema.Ordered := by
  simp only [vaultSchema, Resource.Ordered, AttributesOrdered, Attribute.Ordered, Element.Ordered]
  decide

theorem registry_of_build_vault :
    ∃ g, (build vaultSchema { name := "k", kind := "K" } .empty).outcome = .ok g ∧
      (build vaultSchema { name := "k", kind := "K" } .empty).config.targetFor?
        "auth_rule[*].token" = some "spec.forProvider.authRule[*].tokenSecretRef" ∧
      (build vaultSchema { name := "k", kind := "K" } .empty).config.targetFor?
        "auth_rule" = none := by
  obtain ⟨g, hg, -⟩ := BuildResult.exists_ok (f := fun g => g.types.length)
    (show (build vaultSchema { name := "k", kind := "K" } .empty).outcome.toOption.map _ = some 4 by
      decide +kernel)
  obtain ⟨-, -, hentries, hothers⟩ := registry_of_build hg ordered_vaultSchema (by decide +kernel)
  refine ⟨g, hg, ?_, (hothers "auth_rule" (by decide +kernel)).trans rfl⟩
  have htoken := hentries _ (List.mem_cons_of_mem _ (List.mem_cons_of_mem _ List.mem_cons_self)) rfl
  rw [show Reached.target _ = "spec.forProvider.authRule[*].tokenSecretRef" by decide +kernel]
    at htoken
  exact htoken

end ResourceTypes
