import ResourceTypes.Proofs.Build.Decisions
import ResourceTypes.Proofs.Build.Targets
import ResourceTypes.Proofs.Name.Identifiers

/-! # Reading again what a build writes

What a build writes to its configuration are decisions about attributes that the schema reaches: a
secret is registered under the spelling of the path of a sensitive attribute, and only reached
attributes are visited (`Decision.Concerns`).  Each step of a build decides only about the attribute
at which it stands, so that a whole run, be it stopped by an error at any point, decides about the
attributes of its schema alone (`decided_of_build`).

When all attribute names are in snake case, every path of such an attribute is read back from its
spelling with all its wildcards, and so is its canonical path (`Reached.parse_spelled`).  Hence
`written_paths_reread`. -/

namespace ResourceTypes

open Build

/-! ### Decisions about attributes -/

/-- The decision is one about an attribute of the list. -/
inductive Decision.Concerns (kind : String) (rs : List Reached) : Decision → Prop
  | secret {r : Reached} (target : String) (mem : r ∈ rs)
      (sensitive : r.attr.traits.sensitive = true) :
      Concerns kind rs (.secret r.path.spelled target)
  | visit {r : Reached} (mem : r ∈ rs) : Concerns kind rs (.visit (.ofPath kind r.path))
  | report {e : AuditEvent} (other : e.event ≠ .lateInitIgnore) :
      Concerns kind rs (.report e other)

/-- Between the states only decisions about the attributes are made. -/
def Decides (kind : String) (rs : List Reached) (s t : BuildState) : Prop :=
  ∃ ds, Performs ds s t ∧ ∀ d ∈ ds, d.Concerns kind rs

variable {kind : String} {rs : List Reached}

theorem Decides.of_decision {s t : BuildState} {d : Decision} (h : d.Concerns kind rs)
    (config : t.config = d.config s.config) (events : t.events = s.events ++ d.events s.config) :
    Decides kind rs s t :=
  ⟨[d], .of_decision d config events, List.forall_mem_singleton.mpr h⟩

namespace Build

theorem decides (kind : String) (rs : List Reached) : StateOrder (Decides kind rs) where
  refl s := ⟨[], .refl s, by simp⟩
  trans := by
    rintro s t u ⟨ds, h, hds⟩ ⟨ds', h', hds'⟩
    exact ⟨ds ++ ds', h.trans h', List.forall_mem_append.mpr ⟨hds, hds'⟩⟩

/-! ### What one step decides -/

theorem decides_takeName (name : String) : Moves (Decides kind rs) (takeName name) :=
  fun _ => ⟨[], .of_eq rfl rfl, by simp⟩

theorem decides_document (typeName fieldName text : String) :
    Moves (Decides kind rs) (document typeName fieldName text) :=
  fun _ => ⟨[], .of_eq rfl rfl, by simp⟩

theorem decides_record {e : AuditEvent} (other : e.event ≠ .lateInitIgnore) :
    Moves (Decides kind rs) (record e) :=
  fun _ => .of_decision (.report other) rfl rfl

theorem decides_emitType (l : Location) (name : String) (fields : List Field) :
    Moves (Decides kind rs) (emitType l name fields) := by
  intro s
  let report : AuditEvent :=
    { event := .typeGenerated, typeName := some name, sourcePath := some l.source.spelled,
      fieldCount := some fields.length }
  exact .of_decision (.report (e := report) EventKind.noConfusion) rfl rfl

theorem decides_openLevel (l : Location) : Moves (Decides kind rs) (openLevel l) :=
  (decides kind rs).moves_openLevel decides_takeName l

theorem decides_closeLevel (l : Location) (level : Level) :
    Moves (Decides kind rs) (closeLevel l level) :=
  (decides kind rs).composes.closeLevel decides_emitType l level

theorem decides_registerIgnored {r : Reached} (mem : r ∈ rs) :
    Moves (Decides kind rs) (registerIgnored (.ofPath kind r.path)) := by
  intro s
  rw [runFrom_visit]
  exact .of_decision (.visit mem) rfl rfl

theorem decides_placeVariants {r : Reached} (mem : r ∈ rs) {site : Site}
    (located : site.location = .ofPath kind r.path)
    (sensitive : site.sensitive = r.attr.traits.sensitive) (variants : List Variant)
    (level : Level) : Moves (Decides kind rs) (placeVariants site variants level) := by
  refine (decides kind rs).composes.placeVariants decides_document (fun hs target s => ?_)
    (fun e he => decides_record (by rw [he]; exact EventKind.noConfusion)) variants level
  rw [located]
  exact .of_decision (.secret target mem (sensitive ▸ hs)) rfl rfl

theorem moves_siteOf {R : BuildState → BuildState → Prop} {name : FieldName} {l : Location}
    {traits : Traits} {comment : Comment} {β : Type} {f : Site → Build β}
    (goesOn : ∀ c, Moves R (f (.ofAttribute c name l traits comment))) :
    Moves R (siteOf name l traits comment >>= f) := by
  intro s
  rw [runFrom_bind]
  exact goesOn s.config s

/-! ### What a run decides -/

theorem decides_fields_cons {name : String} {a : Attribute} {rest : List (String × Attribute)}
    {p : FieldPath} {above : List Attribute} {depth : Nat} (mem : ⟨p, above, name, a⟩ ∈ rs)
    (builds : ∀ inner, a.nested? = some inner → ∀ depth,
      Moves (Decides kind rs) (resource inner (.ofPath kind ((p.child name).inside a)) depth))
    (others : ∀ level, Moves (Decides kind rs) (fields rest (.ofPath kind p) depth level))
    (level : Level) :
    Moves (Decides kind rs) (fields ((name, a) :: rest) (.ofPath kind p) depth level) := by
  have composes := (decides kind rs).composes
  have resolves : Moves (Decides kind rs) (schema a (.ofPath kind (p.child name)) depth) := by
    refine composes.schema fun inner ha => ?_
    rw [Location.inside_ofPath]
    exact builds inner ha _
  rw [fields, Location.field_ofPath]
  refine composes.sequence (composes.commentOf _ _) fun comment => ?_
  refine composes.sequence (decides_registerIgnored (r := ⟨p, above, name, a⟩) mem) fun _ => ?_
  refine composes.sequence (composes.wrapped resolves) fun variants => moves_siteOf fun c => ?_
  exact composes.sequence (composes.wrapped (decides_placeVariants mem rfl rfl _ _)) others

theorem decides_fields (attributes : List (String × Attribute)) (p : FieldPath)
    (above : List Attribute) (within : ∀ r ∈ reachedIn attributes p above, r ∈ rs) (depth : Nat)
    (level : Level) :
    Moves (Decides kind rs) (fields attributes (.ofPath kind p) depth level) := by
  induction attributes using Resource.attributes_induction generalizing p above depth level with
  | nil =>
      rw [fields]
      exact (decides kind rs).composes.value level
  | flat name a rest ha ih =>
      rw [reachedIn_cons_flat rest p above ha, List.forall_mem_cons] at within
      refine decides_fields_cons within.1 (fun inner hr => ?_) (ih p above within.2 depth) level
      rw [ha] at hr
      cases hr
  | nested name a inner rest ha ihi ihr =>
      rw [reachedIn_cons_nested rest p above ha, List.forall_mem_cons,
        List.forall_mem_append] at within
      refine decides_fields_cons within.1 (fun inner' hr depth' => ?_)
        (ihr p above within.2.2 depth) level
      rw [ha] at hr
      cases hr
      exact (decides kind rs).composes.resource (decides_openLevel _)
        (ihi _ _ within.2.1 depth') (decides_closeLevel _)

end Build

/-- A build, whether it succeeds or fails, decides about the attributes of its schema alone. -/
theorem decided_of_build (schema : Resource) (config : Config) (symbols : SymbolTable) :
    Decides config.kind schema.reached { symbols, config } (finalState schema config symbols) := by
  obtain ⟨attributes⟩ := schema
  have composes := (decides config.kind (Resource.mk attributes).reached).composes
  have reached : ∀ r ∈ reachedIn attributes .root [], r ∈ (Resource.mk attributes).reached := by
    intro r hr
    rwa [Resource.reached, Resource.reachedFrom]
  have runs : Moves (Decides config.kind (Resource.mk attributes).reached)
      (within (.types config.kind) (resource (.mk attributes) (.root config.kind) 0)) :=
    composes.wrapped (composes.resource (decides_openLevel _)
      (decides_fields attributes .root [] reached 0) (decides_closeLevel _))
  exact runs { symbols, config }

/-! ### What is written -/

theorem Decision.mem_secrets {ds : List Decision} {e : String × String}
    (h : e ∈ secrets ds) : .secret e.1 e.2 ∈ ds := by
  induction ds with
  | nil => cases h
  | cons d ds ih =>
      cases d with
      | secret source target =>
          rcases List.mem_cons.mp h with rfl | h
          · exact List.mem_cons_self
          · exact List.mem_cons_of_mem _ (ih h)
      | visit l => exact List.mem_cons_of_mem _ (ih h)
      | report e other => exact List.mem_cons_of_mem _ (ih h)

theorem Decision.mem_visited {ds : List Decision} {l : Location} (h : l ∈ visited ds) :
    .visit l ∈ ds := by
  induction ds with
  | nil => cases h
  | cons d ds ih =>
      cases d with
      | visit l' =>
          rcases List.mem_cons.mp h with rfl | h
          · exact List.mem_cons_self
          · exact List.mem_cons_of_mem _ (ih h)
      | secret source target => exact List.mem_cons_of_mem _ (ih h)
      | report e other => exact List.mem_cons_of_mem _ (ih h)

/-- With names in snake case the path of a reached attribute and its canonical path are read back
from their spellings. -/
theorem Reached.parse_spelled {schema : Resource}
    (snake : ∀ r ∈ schema.reached, FieldName.isSnakeName r.name = true) {r : Reached}
    (h : r ∈ schema.reached) :
    FieldPath.parse r.path.spelled = .ok r.path ∧
      CanonicalPath.parse r.path.canonical.spelled = .ok r.path.canonical := by
  obtain ⟨rooted, names⟩ := path_of_mem_reached h
  have hsnake : ∀ n ∈ r.path.fields, FieldName.isSnakeName n = true := by
    intro n hn
    obtain ⟨r', hr', rfl⟩ := names n hn
    exact snake r' hr'
  refine ⟨FieldPath.parse_spelled_of_plain rooted fun n hn =>
    FieldName.plainName_of_isSnakeName (hsnake n hn), ?_⟩
  refine CanonicalPath.parse_spelled_of_plain ?_ ?_
  · rw [FieldPath.canonical, Reached.path, FieldPath.fields_child]
    simp
  · refine List.forall_mem_map.mpr fun n hn => ?_
    obtain ⟨c, rest, hlist, -⟩ :=
      isUpperCamel_iff.mp (FieldName.isUpperCamel_camel (hsnake n hn))
    refine FieldPath.PlainName.of_alphanum ?_ (FieldName.alphanum_ofSnake (hsnake n hn)).1
    intro hempty
    rw [hempty] at hlist
    cases hlist

/-- What a build writes to its configuration, whether it succeeds or fails, is read again as the
path of the attribute for which it is written: every key of the registry of secrets with all
wildcards, and every canonical path that is registered. -/
theorem written_paths_reread (schema : Resource) (config : Config) (symbols : SymbolTable)
    (snake : ∀ r ∈ schema.reached, FieldName.isSnakeName r.name = true) :
    ∃ entries paths, (build schema config symbols).config = config.extend entries paths ∧
      (∀ e ∈ entries, ∃ r ∈ schema.reached, r.attr.traits.sensitive = true ∧
        e.1 = r.path.spelled ∧ FieldPath.parse e.1 = .ok r.path) ∧
      ∀ p ∈ paths, ∃ r ∈ schema.reached,
        config.lateInitializer.ignoresSource r.path = true ∧ p = r.path.canonical ∧
          CanonicalPath.parse p.spelled = .ok p := by
  obtain ⟨ds, performed, concerns⟩ := decided_of_build schema config symbols
  refine ⟨Decision.secrets ds, Decision.paths config.lateInitializer ds, ?_, ?_, ?_⟩
  · rw [config_build, performed.config, configAfter_eq]
  · rintro ⟨source, target⟩ he
    obtain ⟨_, hr, sensitive⟩ := concerns _ (Decision.mem_secrets he)
    exact ⟨_, hr, sensitive, rfl, (Reached.parse_spelled snake hr).1⟩
  · intro p hp
    obtain ⟨l, hl, rfl⟩ := List.mem_map.mp hp
    obtain ⟨visited, ignored⟩ := List.mem_filter.mp hl
    cases concerns _ (Decision.mem_visited visited) with
    | visit hr => exact ⟨_, hr, ignored, rfl, (Reached.parse_spelled snake hr).2⟩

/-- Secrets in a list of sets of rules, before an attribute for which there is no type. -/
def guardedSchema : Resource :=
  .mk
    [("vpc_rules", .mk { kind := .list, optional := true } (.schema (.mk { kind := .set }
        (.resource (.mk
          [("api_key_2", .mk { kind := .string, optional := true, sensitive := true } .unset),
            ("host_ip", .mk { kind := .string, computed := true } .unset)]))))),
      ("zone", .mk { kind := .invalid } .unset)]

theorem written_paths_reread_of_failure :
    ∃ config, (build guardedSchema config .empty).outcome.toOption.isNone = true ∧
      (build guardedSchema config .empty).config =
        config.extend
          [("vpc_rules[*][*].api_key_2", "spec.forProvider.vpcRules[*][*].apiKey2SecretRef")]
          [⟨["VpcRules", "HostIP"]⟩] ∧
      ∃ entries paths, (build guardedSchema config .empty).config = config.extend entries paths ∧
        (∀ e ∈ entries, ∃ r ∈ guardedSchema.reached, r.attr.traits.sensitive = true ∧
          e.1 = r.path.spelled ∧ FieldPath.parse e.1 = .ok r.path) ∧
        ∀ p ∈ paths, ∃ r ∈ guardedSchema.reached,
          config.lateInitializer.ignoresSource r.path = true ∧ p = r.path.canonical ∧
            CanonicalPath.parse p.spelled = .ok p := by
  let config : Config :=
    { name := "k", kind := "K",
      lateInitializer.ignoredFields := [⟨[.field "vpc_rules", .field "host_ip"]⟩] }
  refine ⟨config, by decide +kernel, by decide +kernel, ?_⟩
  exact written_paths_reread guardedSchema config .empty (by decide +kernel)

end ResourceTypes
