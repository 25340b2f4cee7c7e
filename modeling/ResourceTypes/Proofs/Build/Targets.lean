import ResourceTypes.Proofs.Build.Chains
import ResourceTypes.Proofs.Build.Registry
import ResourceTypes.Proofs.Field.Suffixes

/-! # Targets of secrets

The target of a secret that can be set is the prefix for what can be set and the spelling of a path
(`Reached.secretPath`), from which the path is read back.  Its names are the lower camel forms of
the source names, the last with the suffix of a reference to a secret.

Where a chain of fields leads to the reference, its JSON names are the names on the path up to case
(`uncased_secretPath`), as both are derived from the same words.  When the words of the last name
are found again in its camel form, they are the very names exactly if tags and lower camel forms
agree, that is, if no word after the first of a name is an acronym (`fields_secretPath_eq_iff`). -/

namespace ResourceTypes

/-! ### Paths of references -/

namespace FieldPath

theorem fields_lowerCamel (p : FieldPath) :
    p.lowerCamel.fields = p.fields.map fun n => (FieldName.ofSnake n).lowerCamel := by
  rw [fields, fields, lowerCamel, List.filterMap_map, List.map_filterMap]
  exact List.filterMap_congr fun segment _ => by cases segment <;> rfl

theorem lowerCamel_child (p : FieldPath) (name : String) :
    (p.child name).lowerCamel = p.lowerCamel.child (FieldName.ofSnake name).lowerCamel := by
  simp [lowerCamel, child, Segment.lowerCamel]

end FieldPath

theorem FieldName.plainName_of_isSnakeName {name : String} (h : isSnakeName name = true) :
    FieldPath.PlainName name := by
  obtain ⟨htext, c, hhead, -⟩ := isSnakeName_iff.mp h
  refine ⟨fun hempty => by simp [hempty] at hhead, fun d hd => (htext d hd).imp_left ?_⟩
  exact fun hd => hd.elim Text.isAlphanum_of_isLower Text.isAlphanum_of_isDigit

/-- The path of the reference that takes the place of a secret. -/
def Reached.secretPath (r : Reached) : FieldPath :=
  r.level.lowerCamel.child ((FieldName.ofSnake r.name).lowerCamel ++ secretRefSuffix)

theorem Reached.target_of_settable {r : Reached} (ho : r.attr.isObservation = false) :
    r.target = "spec.forProvider." ++ r.secretPath.spelled := by
  rw [target, ho, if_neg Bool.false_ne_true, path, FieldPath.lowerCamel_child, String.append_assoc,
    FieldPath.spelled_child_append, secretPath, secretRefSuffix]

theorem Reached.fields_secretPath (r : Reached) :
    r.secretPath.fields = (r.level.fields.map fun n => (FieldName.ofSnake n).lowerCamel) ++
      [(FieldName.ofSnake r.name).lowerCamel ++ secretRefSuffix] := by
  rw [secretPath, FieldPath.fields_child, FieldPath.fields_lowerCamel]

theorem Reached.rooted_secretPath {r : Reached} (h : r.path.Rooted) : r.secretPath.Rooted := by
  obtain ⟨name, more, hs⟩ := h
  rw [FieldPath.Rooted, secretPath, FieldPath.child, FieldPath.lowerCamel]
  rw [path, FieldPath.child] at hs
  dsimp only at hs ⊢
  cases hl : r.level.segments with
  | nil => exact ⟨_, [], rfl⟩
  | cons first rest =>
      rw [hl, List.cons_append, List.cons.injEq] at hs
      rw [hs.1]
      exact ⟨_, _, rfl⟩

theorem Reached.parse_secretPath {r : Reached} (rooted : r.path.Rooted)
    (snake : ∀ n ∈ r.path.fields, FieldName.isSnakeName n = true) :
    FieldPath.parse r.secretPath.spelled = .ok r.secretPath := by
  refine FieldPath.parse_spelled_of_plain (rooted_secretPath rooted) ?_
  obtain ⟨hlevel, hname⟩ := forall_fields_path.mp snake
  rw [fields_secretPath, List.forall_mem_append, List.forall_mem_map, List.forall_mem_singleton]
  refine ⟨fun n hn => .of_alphanum (FieldName.lowerCamel_ne_empty (hlevel n hn))
    (FieldName.alphanum_ofSnake (hlevel n hn)).2.1, .of_alphanum ?_ ?_⟩
  · simp [secretRefSuffix]
  · rw [String.toList_append, List.forall_mem_append]
    exact ⟨(FieldName.alphanum_ofSnake hname).2.1, alphanum_secretRefSuffix⟩

/-! ### Names on a path and on a chain -/

/-- Up to case the names on the path of a reference are the tags of the attributes above the secret
and the JSON name of the reference. -/
theorem Reached.uncased_secretPath {r : Reached} {f : Field} (hf : r.SecretField f)
    (hjson : f.jsonName = (FieldName.ofCamel f.name).tag)
    (snake : ∀ n ∈ r.path.fields, FieldName.isSnakeName n = true) :
    r.secretPath.fields.map FieldName.uncased =
      (r.level.tags ++ [f.jsonName]).map FieldName.uncased := by
  obtain ⟨hsnake, hname⟩ := forall_fields_path.mp snake
  have hlevel : r.level.fields.map (FieldName.uncased ∘ fun n => (FieldName.ofSnake n).lowerCamel) =
      r.level.fields.map (FieldName.uncased ∘ fun n => (FieldName.ofSnake n).tag) := by
    refine List.map_congr_left fun n hn => ?_
    obtain ⟨-, hlowerCamel, htag⟩ :=
      FieldName.uncased_ofSnake (FieldName.isSnakeName_iff.mp (hsnake n hn)).1
    rw [Function.comp_apply, Function.comp_apply, hlowerCamel, htag]
  have hlast : FieldName.uncased f.jsonName =
      FieldName.uncased ((FieldName.ofSnake r.name).lowerCamel ++ secretRefSuffix) := by
    rw [hjson, hf.name,
      FieldName.uncased_tag_ofCamel (FieldName.alphanum_camel_secretRef hname)]
    obtain ⟨hcamel, hlowerCamel, -⟩ :=
      FieldName.uncased_ofSnake (FieldName.isSnakeName_iff.mp hname).1
    rw [FieldName.uncased_append, FieldName.uncased_append, hcamel, hlowerCamel]
  rw [fields_secretPath, FieldPath.tags, List.map_append, List.map_append, List.map_map,
    List.map_map, List.map_singleton, List.map_singleton, hlast, hlevel]

theorem Reached.jsonName_of_readsBack {r : Reached} {f : Field} (hf : r.SecretField f)
    (hjson : f.jsonName = (FieldName.ofCamel f.name).tag)
    (snake : FieldName.isSnakeName r.name = true)
    (back : FieldName.ReadsBack (FieldName.snakeWords r.name.toList)) :
    f.jsonName = (FieldName.ofSnake r.name).tag ++ secretRefSuffix := by
  rw [hjson, hf.name]
  exact (FieldName.tag_suffixed_iff snake secretRefSuffix List.mem_cons_self).mpr back

/-- When the words of its last name are read back, the path of a reference has the tags of the
attributes above the secret and the JSON name of the reference exactly when no name has an acronym
after its first word. -/
theorem Reached.fields_secretPath_eq_iff {r : Reached} {f : Field} (hf : r.SecretField f)
    (hjson : f.jsonName = (FieldName.ofCamel f.name).tag)
    (snake : ∀ n ∈ r.path.fields, FieldName.isSnakeName n = true)
    (back : FieldName.ReadsBack (FieldName.snakeWords r.name.toList)) :
    r.secretPath.fields = r.level.tags ++ [f.jsonName] ↔
      ∀ n ∈ r.path.fields, FieldName.AcronymFree n := by
  obtain ⟨hlevel, hname⟩ := forall_fields_path.mp snake
  rw [forall_fields_path, fields_secretPath, FieldPath.tags,
    jsonName_of_readsBack hf hjson hname back, List.append_singleton_inj, List.map_inj_left,
    String.append_left_inj, FieldName.lowerCamel_eq_tag_iff hname]
  refine and_congr_left fun _ => forall₂_congr fun n hn => ?_
  exact FieldName.lowerCamel_eq_tag_iff (hlevel n hn)

/-! ### Main statement -/

/-- The target of a secret that can be set spells a path of lower camel forms.  When all attributes
above the secret link the types for what can be set, a chain of fields leads from the root to the
reference, and its JSON names are the names on the path up to case; when the words of the last name
are read back, they are the very names exactly if no name has an acronym after its first word. -/
theorem targets_lead_to_secrets {schema : Resource} {config : Config} {symbols : SymbolTable}
    {g : Generated} (h : (build schema config symbols).outcome = .ok g) (ordered : schema.Ordered)
    (snake : ∀ r ∈ schema.reached, FieldName.isSnakeName r.name = true)
    (untagged : ∀ r ∈ schema.reached, ∀ c,
      Comment.parse r.attr.traits.description = .ok c → c.jsonTag = none) :
    ∀ r ∈ schema.reached, r.attr.traits.sensitive = true → r.attr.isObservation = false →
      ∃ text path,
        (build schema config symbols).config.targetFor? r.path.spelled =
          some ("spec.forProvider." ++ text) ∧
        FieldPath.parse text = .ok path ∧
        path.fields = (r.level.fields.map fun n => (FieldName.ofSnake n).lowerCamel) ++
          [(FieldName.ofSnake r.name).lowerCamel ++ "SecretRef"] ∧
        ((∀ a ∈ r.above, a.linksParameters = true) →
          ∃ root outer f, g.forProviderType? = some root ∧
            FieldChain g.types root.fields (outer ++ [f]) ∧ r.SecretField f ∧
            outer.map Field.jsonName = r.level.tags ∧
            (path.fields.map FieldName.uncased =
              (outer ++ [f]).map fun f => FieldName.uncased f.jsonName) ∧
            (FieldName.ReadsBack (FieldName.snakeWords r.name.toList) →
              f.jsonName = (FieldName.ofSnake r.name).tag ++ "SecretRef" ∧
              (path.fields = (outer ++ [f]).map Field.jsonName ↔
                ∀ n ∈ r.path.fields, FieldName.AcronymFree n))) := by
  intro r hr hs ho
  obtain ⟨rooted, hnames⟩ := path_of_mem_reached hr
  have spellable : ∀ r ∈ schema.reached, FieldPath.Spellable r.name := fun r hr =>
    (FieldName.plainName_of_isSnakeName (snake r hr)).spellable.1
  have regular : ∀ r ∈ schema.reached, r.Regular config.kind := fun r hr =>
    ⟨sound_of_build h r hr, snake r hr, untagged r hr⟩
  have hsnake : ∀ n ∈ r.path.fields, FieldName.isSnakeName n = true := fun n hn => by
    obtain ⟨r', hr', rfl⟩ := hnames n hn
    exact snake r' hr'
  refine ⟨r.secretPath.spelled, r.secretPath, ?_, Reached.parse_secretPath rooted hsnake,
    r.fields_secretPath, fun links => ?_⟩
  · rw [targetFor?_of_build h ordered spellable hr hs, Reached.target_of_settable ho]
  · obtain ⟨levels, hb⟩ := built_of_build h
    obtain ⟨root, outer, f, hroot, hchain, hsecret, hjson, htags⟩ := hb.chain regular hr hs ho links
    have hnames : (outer ++ [f]).map Field.jsonName = r.level.tags ++ [f.jsonName] := by
      rw [List.map_append, htags, List.map_singleton]
    refine ⟨root, outer, f, hroot, hchain, hsecret, htags, ?_, fun back =>
      ⟨Reached.jsonName_of_readsBack hsecret hjson (snake r hr) back, ?_⟩⟩
    · rw [Reached.uncased_secretPath hsecret hjson hsnake, ← hnames, List.map_map]
      rfl
    · rw [hnames]
      exact Reached.fields_secretPath_eq_iff hsecret hjson hsnake back

theorem targets_lead_to_secrets_vault :
    ∃ g text path root outer f,
      (build vaultSchema { name := "k", kind := "K" } .empty).outcome = .ok g ∧
      (build vaultSchema { name := "k", kind := "K" } .empty).config.targetFor?
        "auth_rule[*].token" = some ("spec.forProvider." ++ text) ∧
      FieldPath.parse text = .ok path ∧ path.fields = ["authRule", "tokenSecretRef"] ∧
      g.forProviderType? = some root ∧ FieldChain g.types root.fields (outer ++ [f]) ∧
      f.name = "TokenSecretRef" ∧ path.fields = (outer ++ [f]).map Field.jsonName := by
  obtain ⟨g, hg, -⟩ := BuildResult.exists_ok (f := fun g => g.types.length)
    (show (build vaultSchema { name := "k", kind := "K" } .empty).outcome.toOption.map _ = some 4 by
      decide +kernel)
  have hempty : ∀ r ∈ vaultSchema.reached, r.attr.traits.description = "" := by decide
  have untagged : ∀ r ∈ vaultSchema.reached, ∀ c,
      Comment.parse r.attr.traits.description = .ok c → c.jsonTag = none := by
    intro r hr c hc
    rw [hempty r hr] at hc
    cases hc
    rfl
  obtain ⟨text, path, htarget, hparse, hfields, hled⟩ :=
    targets_lead_to_secrets hg ordered_vaultSchema (by decide) untagged _
      (List.mem_cons_of_mem _ (List.mem_cons_of_mem _ List.mem_cons_self)) rfl rfl
  obtain ⟨root, outer, f, hroot, hchain, hsecret, -, -, hback⟩ := hled (by decide)
  obtain ⟨-, hnames⟩ := hback ⟨by decide, by decide⟩
  refine ⟨g, text, path, root, outer, f, hg, htarget, hparse, ?_, hroot, hchain, ?_,
    hnames.mpr (by decide)⟩
  · rw [hfields]
    decide +kernel
  · rw [hsecret.name]
    decide +kernel

/-- For a secret at the path that can be set, in a schema of snake names without descriptions, the
text is registered as the target, but no chain of fields from the root has the JSON names that it
spells. -/
structure MissesTarget (schema : Resource) (path text : String) : Prop where
  snake : ∀ r ∈ schema.reached,
    FieldName.isSnakeName r.name = true ∧ r.attr.traits.description = ""
  secret : ∃ r ∈ schema.reached, r.path.spelled = path ∧ r.attr.traits.sensitive = true ∧
    r.attr.isObservation = false
  target : (build schema { name := "n", kind := "K" } .empty).config.targetFor? path =
    some ("spec.forProvider." ++ text)
  missed : ∃ g root p, (build schema { name := "n", kind := "K" } .empty).outcome = .ok g ∧
    g.forProviderType? = some root ∧ FieldPath.parse text = .ok p ∧
    ∀ chain, FieldChain g.types root.fields chain → chain.map Field.jsonName ≠ p.fields

/-- A secret of the given name that can be set. -/
def secretSchema (name : String) : Resource :=
  .mk [(name, .mk { kind := .string, optional := true, sensitive := true } .unset)]

/-- A secret that can be set, in a list that is only observed. -/
def sealedSchema : Resource :=
  .mk [("a", .mk { kind := .list, computed := true } (.resource (secretSchema "x")))]

theorem missed_of_root {schema : Resource} {text : String} (root : TypeDecl) (p : FieldPath)
    (hroot : (build schema { name := "n", kind := "K" } .empty).outcome.toOption.map
      Generated.forProviderType? = some (some root))
    (hp : FieldPath.parse text = .ok p)
    (missed : ∀ types chain, FieldChain types root.fields chain →
      chain.map Field.jsonName ≠ p.fields) :
    ∃ g root p, (build schema { name := "n", kind := "K" } .empty).outcome = .ok g ∧
      g.forProviderType? = some root ∧ FieldPath.parse text = .ok p ∧
      ∀ chain, FieldChain g.types root.fields chain → chain.map Field.jsonName ≠ p.fields := by
  obtain ⟨g, hg, hroot⟩ := BuildResult.exists_ok hroot
  exact ⟨g, root, p, hg, hroot, hp, missed g.types⟩

/-- The target is missed where a name has an acronym after its first word, where its words are not
read back, and where the list around the secret is only observed. -/
theorem target_missed :
    MissesTarget (secretSchema "db_url") "db_url" "dbURLSecretRef" ∧
      MissesTarget (secretSchema "a_b") "a_b" "aBSecretRef" ∧
      MissesTarget sealedSchema "a[*].x" "a[*].xSecretRef" := by
  refine ⟨⟨by decide +kernel, by decide +kernel, by decide +kernel, ?_⟩,
    ⟨by decide +kernel, by decide +kernel, by decide +kernel, ?_⟩,
    ⟨by decide +kernel, by decide +kernel, by decide +kernel, ?_⟩⟩
  · refine missed_of_root
      ⟨"KParameters", [⟨"DbURLSecretRef", .pointer .secretKeySelector,
        ⟨"dbUrlSecretRef,omitempty", "-"⟩⟩]⟩
      ⟨[.field "dbURLSecretRef"]⟩ (by decide +kernel) (by decide +kernel) fun types chain hc => ?_
    rw [hc.eq_singleton rfl]
    decide +kernel
  · refine missed_of_root
      ⟨"KParameters", [⟨"ABSecretRef", .pointer .secretKeySelector,
        ⟨"abSecretRef,omitempty", "-"⟩⟩]⟩
      ⟨[.field "aBSecretRef"]⟩ (by decide +kernel) (by decide +kernel) fun types chain hc => ?_
    rw [hc.eq_singleton rfl]
    decide +kernel
  · exact missed_of_root ⟨"KParameters", []⟩ ⟨[.field "a", .wildcard, .field "xSecretRef"]⟩
      (by decide +kernel) (by decide +kernel) fun types chain hc => absurd rfl hc.ne_nil

end ResourceTypes
