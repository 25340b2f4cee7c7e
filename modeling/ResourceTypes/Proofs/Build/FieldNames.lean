import Mathlib.Data.List.Flatten
import ResourceTypes.Proofs.Build.Companions
import ResourceTypes.Proofs.Build.Documentation
import ResourceTypes.Proofs.Build.FieldLists

/-! # Names of fields

The field that stands for an attribute has its camel name, followed by a suffix when a secret takes
its place, and the companions of a reference are named after that field unless the configuration
names them.  So the names of what can be set come in two kinds (`Contribution.map_name_settable`):
camel names of attributes, and names that are generated.  Nothing checks a generated name against
any other name of its type.

When the camel names of each level are distinct and no attribute puts two fields of its own into one
type (`Attribute.doubles`), the names of what is observed are distinct, and those of what can be set
are exactly when the generated names of the level are distinct and none is the camel name of an
attribute there (`field_names_of_build`).  Two attributes can break this (`field_names_collide`). -/

namespace ResourceTypes

open Build

/-! ### Names of attributes -/

/-- Two fields for an attribute that is not sensitive come into one type: an element schema leads to
a resource that can be set, and gives the variants for both worlds one flag. -/
def Attribute.doubles (a : Attribute) : Bool :=
  a.nested?.isSome && !a.holdsDirectly && !a.innermost.isObservation && !a.traits.sensitive

/-- The value is a list. -/
def Attribute.isList (a : Attribute) : Bool := a.kind = .list || a.kind = .set

namespace Reached

/-- The camel form of the name of the attribute. -/
def camel (r : Reached) : String := (FieldName.ofSnake r.name).camel

/-- The name of the field that stands for the attribute among what can be set. -/
def baseName (r : Reached) : String :=
  if r.attr.traits.sensitive then r.camel ++ secretRefSuffix else r.camel

/-- The names of the companions of the reference of the attribute. -/
def companionNames (config : Config) (r : Reached) : List String :=
  let many := !r.attr.traits.sensitive && r.attr.isList
  (config.referenceFor? r.path).toList.flatMap fun ref =>
    [ref.refFieldName.getD (r.baseName ++ if many then "Refs" else "Ref"),
      ref.selectorFieldName.getD (r.baseName ++ "Selector")]

/-- The camel name of an attribute that can be set and holds no secret. -/
def plainNames (r : Reached) : List String :=
  if r.attr.isObservation || r.attr.traits.sensitive then [] else [r.camel]

/-- The names of the secret and of the companions of an attribute that can be set. -/
def generatedNames (config : Config) (r : Reached) : List String :=
  if r.attr.isObservation then []
  else (if r.attr.traits.sensitive then [r.baseName] else []) ++ r.companionNames config

end Reached

/-- At every level the attributes have distinct camel names. -/
def Resource.CamelDistinct (schema : Resource) : Prop :=
  schema.reached.Pairwise fun r r' => r.level = r'.level → r.camel ≠ r'.camel

instance (schema : Resource) : Decidable schema.CamelDistinct :=
  inferInstanceAs (Decidable (schema.reached.Pairwise _))

/-! ### Variants without doubles -/

namespace Attribute

theorem isList_variantsOver {traits : Traits} (elements : List Variant)
    (valid : traits.kind ≠ .invalid) :
    ∀ v ∈ variantsOver traits elements,
      v.type.isList = (traits.kind = .list || traits.kind = .set : Bool) := by
  intro v hv
  unfold variantsOver at hv
  cases hk : traits.kind <;> rw [hk] at hv valid <;>
    simp only [Primitive.ofKind?, List.mem_singleton, List.mem_map] at hv
  case invalid => exact absurd rfl valid
  case bool | float | int | string => rw [hv]; rfl
  case list | set | map =>
    obtain ⟨w, -, rfl⟩ := hv
    rfl

theorem isList_variants {a : Attribute} {names : Option TypeNames} (valid : a.kind ≠ .invalid) :
    ∀ v ∈ a.variants names, v.type.isList = a.isList := by
  obtain ⟨traits, element⟩ := a
  cases element <;> exact isList_variantsOver _ valid

/-- An attribute that does not double has one variant, of its own world, or one for each world. -/
theorem variants_of_not_doubles {kind : String} {a : Attribute} {p : FieldPath}
    {names : Option TypeNames} (hn : names.isSome = a.nested?.isSome)
    (sound : SoundNodes kind (a.nodes p)) (hs : a.traits.sensitive = false)
    (single : a.doubles = false) :
    (∃ t, a.variants names = [⟨t, a.isObservation⟩]) ∨
      ∃ t t', a.isObservation = false ∧ a.variants names = [⟨t, true⟩, ⟨t', false⟩] := by
  cases hr : a.nested? with
  | none =>
      rw [hr, Option.isSome_none, Option.isSome_eq_false_iff, Option.isNone_iff_eq_none] at hn
      subst hn
      have hne : a.variants none ≠ [] := variants_ne_nil (by rw [hr]; rfl) sound
      exact .inl ⟨_, variants_of_flat "" a hne⟩
  | some r =>
      rw [hr] at hn
      obtain ⟨n, rfl⟩ := Option.isSome_iff_exists.mp hn
      rw [variants_of_nested n hr]
      simp only [doubles, hr, hs, Option.isSome_some, Bool.not_false, Bool.true_and,
        Bool.and_true] at single
      cases hd : a.holdsDirectly with
      | true =>
          rw [innermost_of_holdsDirectly hd]
          cases ho : a.isObservation with
          | true => exact .inl ⟨_, rfl⟩
          | false => exact .inr ⟨_, _, rfl, rfl⟩
      | false =>
          have hi : a.innermost.isObservation = true := by simpa [hd] using single
          rw [hi, if_pos rfl]
          exact .inl ⟨_, rfl⟩

end Attribute

/-! ### Names that an attribute contributes -/

theorem map_name_companions (base : Field) (r : Reference) :
    (companions base r).map Field.name =
      [r.refFieldName.getD (base.name ++ if base.type.isList then "Refs" else "Ref"),
        r.selectorFieldName.getD (base.name ++ "Selector")] := by
  unfold companions
  split <;> simp_all [companion]

namespace Contribution

variable {config : Config} (c : Contribution config)

theorem map_name_base {f : Field} (name : f.name = c.reached.baseName)
    (type : f.type.isList = (!c.reached.attr.traits.sensitive && c.reached.attr.isList)) :
    (f :: c.site.reference.toList.flatMap (companions f)).map Field.name =
      c.reached.baseName :: c.reached.companionNames config := by
  rw [List.map_cons, List.map_flatMap, name]
  simp only [map_name_companions, name, type]
  rfl

theorem map_name_secret (hs : c.reached.attr.traits.sensitive = true) :
    (c.site.secretRef :: c.site.reference.toList.flatMap (companions c.site.secretRef)).map
      Field.name = c.reached.baseName :: c.reached.companionNames config := by
  have htype : c.site.secretRef.type.isList = false := by
    show ValueType.isList (if c.site.optional then _ else _) = false
    split <;> rfl
  refine c.map_name_base ?_ (by rw [htype, hs]; rfl)
  rw [Reached.baseName, hs]
  rfl

theorem map_name_value (valid : c.reached.attr.kind ≠ .invalid)
    (hs : c.reached.attr.traits.sensitive = false) {v : Variant} (hv : v ∈ c.variants)
    (ho : v.isObservation = false) :
    (c.site.parameterFields v).map Field.name =
      c.reached.camel :: c.reached.companionNames config := by
  have hsite : c.site.sensitive = false := hs
  have hbase : c.reached.baseName = c.reached.camel := by
    rw [Reached.baseName, hs]
    rfl
  rw [Site.parameterFields_value hsite ho, ← hbase]
  refine c.map_name_base hbase.symm ?_
  rw [hs, Bool.not_false, Bool.true_and, ← Attribute.isList_variants valid v hv]
  rfl

section single

variable (sound : ∀ e, ¬ c.reached.Fault config.kind e)
  (single : c.reached.attr.doubles = false)

include sound single

/-- The names among what can be set are the plain and the generated ones. -/
theorem map_name_settable :
    (c.fieldsOf false).map Field.name =
      c.reached.plainNames ++ c.reached.generatedNames config := by
  rw [Reached.plainNames, Reached.generatedNames]
  cases hs : c.reached.attr.traits.sensitive with
  | true =>
      rw [c.fieldsOf_sensitive sound hs]
      cases c.reached.attr.isObservation with
      | true => rfl
      | false => exact c.map_name_secret hs
  | false =>
      have hvalid : c.reached.attr.kind ≠ .invalid := fun h =>
        sound _ (.node (Attribute.self_mem_nodes _ _) (.invalidKind h))
      have hnone (t : ValueType) : c.site.parameterFields ⟨t, true⟩ = [] :=
        Site.parameterFields_observed rfl
      have hvalue (t : ValueType) (hv : ⟨t, false⟩ ∈ c.variants) :=
        c.map_name_value hvalid hs hv rfl
      rw [fieldsOf]
      rcases Attribute.variants_of_not_doubles (p := c.reached.path) c.leads
        (fun v hv e he => sound e (.node hv he)) hs single with ⟨t, hv⟩ | ⟨t, t', ho, hv⟩
      · rw [show c.variants = _ from hv] at hvalue ⊢
        cases ho : c.reached.attr.isObservation with
        | true => simp [hnone]
        | false => simpa using hvalue t (by rw [ho]; exact List.mem_singleton_self _)
      · rw [show c.variants = _ from hv] at hvalue ⊢
        have hsecond := hvalue t' (List.mem_cons_of_mem _ (List.mem_singleton_self _))
        simpa [ho, hnone] using hsecond

theorem map_name_observed : ((c.fieldsOf true).map Field.name).Sublist [c.reached.camel] := by
  cases hs : c.reached.attr.traits.sensitive with
  | true =>
      rw [c.fieldsOf_sensitive sound hs]
      exact List.nil_sublist _
  | false =>
      have hfields (v : Variant) : (c.site.observationFields v).map Field.name =
          if v.isObservation then [c.reached.camel] else [] := by
        have hsite : c.site.sensitive = false := hs
        rw [Site.observationFields, hsite]
        cases v.isObservation <;> rfl
      rw [fieldsOf, List.map_flatMap]
      simp only [if_true, hfields]
      unfold variants
      rcases Attribute.variants_of_not_doubles (p := c.reached.path) c.leads
        (fun v hv e he => sound e (.node hv he)) hs single with ⟨t, hv⟩ | ⟨t, t', -, hv⟩
      · rw [hv]
        cases ho : c.reached.attr.isObservation <;> simp
      · rw [hv]
        simp

end single

end Contribution

/-! ### Names of a level -/

namespace FilledLevel

variable {config : Config} (b : FilledLevel config)

/-- The camel names of attributes that name fields among what can be set. -/
def plainNames : List String := b.contributions.flatMap fun c => c.reached.plainNames

/-- The names of secrets and companions. -/
def generatedNames : List String :=
  b.contributions.flatMap fun c => c.reached.generatedNames config

theorem level_eq {c c' : Contribution config} (hc : c ∈ b.contributions)
    (hc' : c' ∈ b.contributions) : c.reached.level = c'.reached.level := by
  have h := (b.location c hc).symm.trans (b.location c' hc')
  exact congrArg Location.source h

section names

variable (sound : ∀ c ∈ b.contributions, ∀ e, ¬ c.reached.Fault config.kind e)
  (single : ∀ c ∈ b.contributions, c.reached.attr.doubles = false)
  (distinct : (b.contributions.map fun c => c.reached.camel).Nodup)

include sound single distinct

theorem nodup_observed : ((b.built.typeOf true).fields.map Field.name).Nodup := by
  refine distinct.sublist ?_
  rw [show (b.built.typeOf true).fields = _ from b.fields true, List.map_flatMap,
    List.map_eq_flatMap]
  exact .flatMap_right _ fun c hc => c.map_name_observed (sound c hc) (single c hc)

theorem nodup_settable_iff : ((b.built.typeOf false).fields.map Field.name).Nodup ↔
    b.generatedNames.Nodup ∧ ∀ x ∈ b.generatedNames, x ∉ b.plainNames := by
  have hplain : b.plainNames.Nodup := by
    refine distinct.sublist ?_
    rw [plainNames, List.map_eq_flatMap]
    refine .flatMap_right _ fun c _ => ?_
    rw [Reached.plainNames]
    split
    · exact List.nil_sublist _
    · exact List.Sublist.refl _
  have hnames : ((b.built.typeOf false).fields.map Field.name).Perm
      (b.plainNames ++ b.generatedNames) := by
    rw [show (b.built.typeOf false).fields = _ from b.fields false, List.map_flatMap,
      List.flatMap_congr fun c hc => c.map_name_settable (sound c hc) (single c hc)]
    exact (List.flatMap_append_perm b.contributions _ _).symm
  rw [hnames.nodup_iff, List.nodup_append']
  constructor
  · rintro ⟨-, hgenerated, hdisjoint⟩
    exact ⟨hgenerated, fun x hx hx' => hdisjoint hx' hx⟩
  · rintro ⟨hgenerated, hnew⟩
    exact ⟨hplain, hgenerated, fun x hx hx' => hnew x hx' hx⟩

end names

end FilledLevel

theorem nodup_camel {schema : Resource} {config : Config} {levels : Forest (FilledLevel config)}
    (reached : ((contributionsOf levels).map Contribution.reached).Perm schema.reached)
    (distinct : schema.CamelDistinct) {b : FilledLevel config} (hb : b ∈ levels.preorder) :
    (b.contributions.map fun c => c.reached.camel).Nodup := by
  have hall : ((contributionsOf levels).map Contribution.reached).Pairwise
      fun r r' => r.level = r'.level → r.camel ≠ r'.camel :=
    (reached.pairwise_iff fun h e => (h e.symm).symm).mpr distinct
  rw [List.pairwise_map, contributionsOf, List.pairwise_flatMap] at hall
  rw [List.Nodup, List.pairwise_map]
  exact (hall.1 b hb).imp_of_mem fun {c c'} hc hc' h => h (b.level_eq hc hc')

/-! ### Lookups -/

theorem TypeDecl.field?_of_nodup {t : TypeDecl} (h : (t.fields.map Field.name).Nodup) {f : Field}
    (hf : f ∈ t.fields) : t.field? f.name = some f :=
  find?_of_nodup h hf

/-- In a type with distinct names, where types have distinct names, a field has a key of its own. -/
theorem Generated.count_fieldKeys {g : Generated} (types : (g.types.map TypeDecl.name).Nodup)
    {t : TypeDecl} (ht : t ∈ g.types) (h : (t.fields.map Field.name).Nodup) {f : Field}
    (hf : f ∈ t.fields) : g.fieldKeys.count (t.name, f.name) = 1 := by
  obtain ⟨before, after, hsplit⟩ := List.append_of_mem ht
  have hother (ts : List TypeDecl) (hts : t.name ∉ ts.map TypeDecl.name) :
      (ts.flatMap fun t => t.fields.map fun f => (t.name, f.name)).count (t.name, f.name) = 0 := by
    refine List.count_eq_zero.mpr fun hmem => ?_
    obtain ⟨t', ht', hkey⟩ := List.mem_flatMap.mp hmem
    obtain ⟨f', -, hk⟩ := List.mem_map.mp hkey
    have hname : t'.name = t.name := congrArg Prod.fst hk
    exact hts (hname ▸ List.mem_map_of_mem ht')
  have hown : (t.fields.map fun f => (t.name, f.name)).count (t.name, f.name) = 1 := by
    have hpairs := h.map (f := fun n => (t.name, n)) fun _ _ e => congrArg Prod.snd e
    rw [List.map_map] at hpairs
    exact List.count_eq_one_of_mem hpairs (List.mem_map_of_mem hf)
  rw [hsplit, List.map_append, List.map_cons] at types
  obtain ⟨-, hafter, hbefore⟩ := List.nodup_append'.mp types
  rw [Generated.fieldKeys, hsplit, List.flatMap_append, List.flatMap_cons, List.count_append,
    List.count_append, hown, hother before fun hm => hbefore hm List.mem_cons_self,
    hother after (List.nodup_cons.mp hafter).1]

/-! ### Main statement -/

/-- When the camel names of every level are distinct and no attribute doubles, the names of what is
observed are distinct.  Those of what can be set are exactly when the generated ones are distinct
and none is plain.  A field of a type with distinct names is found by its name, and has a key of its
own. -/
theorem field_names_of_build {schema : Resource} {config : Config} {symbols : SymbolTable}
    {g : Generated} (h : (build schema config symbols).outcome = .ok g)
    (distinct : schema.CamelDistinct) (single : ∀ r ∈ schema.reached, r.attr.doubles = false) :
    (∃ levels : Forest (FilledLevel config),
      LaidOut schema config.kind g (levels.map FilledLevel.built) ∧
      ((contributionsOf levels).map Contribution.reached).Perm schema.reached ∧
      ∀ b ∈ levels.preorder,
        ((b.built.typeOf true).fields.map Field.name).Nodup ∧
        (((b.built.typeOf false).fields.map Field.name).Nodup ↔
          b.generatedNames.Nodup ∧ ∀ x ∈ b.generatedNames, x ∉ b.plainNames)) ∧
    ∀ t ∈ g.types, (t.fields.map Field.name).Nodup → ∀ f ∈ t.fields,
      t.field? f.name = some f ∧ g.fieldKeys.count (t.name, f.name) = 1 := by
  have sound := sound_of_build h
  obtain ⟨_, hb⟩ := built_of_build h
  have hlaid := hb.laidOut
  have htypes := hb.nodup_names
  obtain ⟨levels, rfl, hreached⟩ := hb.filled
  refine ⟨⟨levels, hlaid, hreached, fun b hmem => ?_⟩, fun t ht hnodup f hf =>
    ⟨TypeDecl.field?_of_nodup hnodup hf, Generated.count_fieldKeys htypes ht hnodup hf⟩⟩
  have mem (c : Contribution config) (hc : c ∈ b.contributions) : c.reached ∈ schema.reached :=
    hreached.mem_iff.mp (List.mem_map_of_mem (List.mem_flatMap_of_mem hmem hc))
  have hsound c (hc : c ∈ b.contributions) := sound _ (mem c hc)
  have hsingle c (hc : c ∈ b.contributions) := single _ (mem c hc)
  have hcamel := nodup_camel hreached distinct hmem
  exact ⟨b.nodup_observed hsound hsingle hcamel, b.nodup_settable_iff hsound hsingle hcamel⟩

theorem field_names_of_build_account :
    ∃ config g, ∃ levels : Forest (FilledLevel config),
      (build accountSchema config .empty).outcome = .ok g ∧
      (∀ b ∈ levels.preorder,
        b.generatedNames.Nodup ∧ ∀ x ∈ b.generatedNames, x ∉ b.plainNames) ∧
      ∃ t ∈ g.types, ∃ f, t.field? "SubnetRef" = some f ∧
        g.fieldKeys.count (t.name, "SubnetRef") = 1 := by
  let config : Config :=
    { name := "k", kind := "K",
      references := .ofList [(⟨[.field "subnet"]⟩, { typeName := "Subnet" })] }
  obtain ⟨g, hg, hnames⟩ := BuildResult.exists_ok
    (f := fun g => g.types.map fun t => t.fields.map Field.name)
    (show (build accountSchema config .empty).outcome.toOption.map _ = some
      [["PassSecretRef", "Subnet", "SubnetRef", "SubnetSelector"], []] by decide +kernel)
  obtain ⟨⟨levels, hlaid, -, hlevels⟩, hfields⟩ :=
    field_names_of_build hg (by decide +kernel) (by decide +kernel)
  have hnodup (t : TypeDecl) (ht : t ∈ g.types) : (t.fields.map Field.name).Nodup := by
    have hmem := List.mem_map_of_mem (f := fun t : TypeDecl => t.fields.map Field.name) ht
    rw [hnames] at hmem
    exact (by decide : ∀ l ∈ [["PassSecretRef", "Subnet", "SubnetRef", "SubnetSelector"], []],
      l.Nodup) _ hmem
  refine ⟨config, g, levels, hg, fun b hb => ?_, ?_⟩
  · have hbuilt : b.built ∈ (levels.map FilledLevel.built).preorder := by
      rw [Forest.preorder_map]
      exact List.mem_map_of_mem hb
    have ht := hlaid.mem_types.mpr ⟨_, hbuilt, false, rfl⟩
    exact (hlevels b hb).2.mp (hnodup _ ht)
  · have hmem : ["PassSecretRef", "Subnet", "SubnetRef", "SubnetSelector"] ∈
        g.types.map fun t => t.fields.map Field.name := by
      rw [hnames]
      exact List.mem_cons_self
    obtain ⟨t, ht, hlist⟩ := List.mem_map.mp hmem
    have href : "SubnetRef" ∈ t.fields.map Field.name := by rw [hlist]; decide
    obtain ⟨f, hf, hname⟩ := List.mem_map.mp href
    obtain ⟨hlookup, hcount⟩ := hfields t ht (hnodup t ht) f hf
    rw [hname] at hlookup hcount
    exact ⟨t, ht, f, hlookup, hcount⟩

/-- A secret, and an attribute with the name of the reference to it. -/
def passwordSchema : Resource :=
  .mk
    [("password", .mk { kind := .string, optional := true, sensitive := true } .unset),
      ("password_secret_ref", .mk { kind := .string, optional := true } .unset)]

/-- The reference to a secret takes the name of an attribute that has another camel name than the
secret. -/
theorem field_names_collide :
    ∃ config g, config.Valid ∧ passwordSchema.CamelDistinct ∧
      (build passwordSchema config .empty).outcome = .ok g ∧
      ∃ t ∈ g.types, t.fields.map Field.name = ["PasswordSecretRef", "PasswordSecretRef"] ∧
        g.fieldKeys.count (t.name, "PasswordSecretRef") = 2 := by
  let config : Config := { name := "k", kind := "K" }
  obtain ⟨g, hg, hout⟩ := BuildResult.exists_ok
    (f := fun g => (g.types.map fun t => (t.name, t.fields.map Field.name),
      g.fieldKeys.count ("KParameters", "PasswordSecretRef")))
    (show (build passwordSchema config .empty).outcome.toOption.map _ = some
      ([("KParameters", ["PasswordSecretRef", "PasswordSecretRef"]), ("KObservation", [])], 2) by
      decide +kernel)
  obtain ⟨htypes, hcount⟩ := Prod.mk.inj hout
  have hmem : ("KParameters", ["PasswordSecretRef", "PasswordSecretRef"]) ∈
      g.types.map fun t => (t.name, t.fields.map Field.name) := by
    rw [htypes]
    exact List.mem_cons_self
  obtain ⟨t, ht, hnames⟩ := List.mem_map.mp hmem
  obtain ⟨hname, hfields⟩ := Prod.mk.inj hnames
  exact ⟨config, g, by decide +kernel, by decide +kernel, hg, t, ht, hfields, hname ▸ hcount⟩

end ResourceTypes
