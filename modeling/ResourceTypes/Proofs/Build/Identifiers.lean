import ResourceTypes.Proofs.Build.Chains
import ResourceTypes.Proofs.Build.Contributions
import ResourceTypes.Proofs.Name.Identifiers

/-! # Identifiers in the output

When the attributes have snake names and no description sets a tag, all names and tags that a build
writes are well formed (`identifiers_of_build`).  A type name is a candidate along a chain of the
kind and of camel names of attributes (`isTypeName_of_mem_types`).  A field is well formed for the
attribute that contributes it (`WellNamed`): so is the plain field of an attribute, each step that
changes a field keeps it so, and the names of companions come from the field or from a
configuration that was checked (`Contribution.wellNamed`). -/

namespace ResourceTypes

open Build

/-! ### Well-named fields -/

/-- A lower camel name, with the option to leave the field out or without. -/
def IsJsonTag (tag : String) : Prop :=
  ∃ name, isLowerCamel name = true ∧ (tag = name ∨ tag = name ++ omitEmpty)

/-- The name and the tags of a field that the attribute of the given name contributes. -/
structure WellNamed (source : String) (f : Field) : Prop where
  name : isUpperCamel f.name = true
  json : IsJsonTag f.tags.json
  tf : f.tags.tf = suppressedTag ∨ f.tags.tf = source ++ omitEmpty

/-- The names that a reference gives to its companions are checked. -/
structure Reference.WellNamed (r : Reference) : Prop where
  ref : ∀ n ∈ r.refFieldName, isUpperCamel n = true
  selector : ∀ n ∈ r.selectorFieldName, isUpperCamel n = true

theorem IsJsonTag.withoutOmitEmpty {tag : String} (h : IsJsonTag tag) :
    IsJsonTag (Site.withoutOmitEmpty tag) := by
  obtain ⟨name, hname, rfl | rfl⟩ := h
  · rw [Site.withoutOmitEmpty_of_alphanum (alphanum_of_isLowerCamel hname)]
    exact ⟨tag, hname, .inl rfl⟩
  · rw [Site.withoutOmitEmpty_append]
    exact ⟨name, hname, .inl rfl⟩

/-! ### Checked configurations -/

theorem Reference.wellNamed_of_check {path : FieldPath} {r : Reference}
    (h : r.check path = none) : r.WellNamed := by
  unfold Reference.check at h
  split_ifs at h with htype href hselector
  have named {o : Option String} (ho : ¬ (o.any fun n => !isUpperCamel n) = true) :
      ∀ n ∈ o, isUpperCamel n = true := by
    intro n hn
    obtain rfl := Option.mem_def.mp hn
    simpa using ho
  exact ⟨named href, named hselector⟩

/-- What validity says of names: the kind, and the names in every reference. -/
theorem Config.Valid.wellNamed {config : Config} (valid : config.Valid) :
    isUpperCamel config.kind = true ∧
      ∀ p r, config.referenceFor? p = some r → r.WellNamed := by
  rw [Valid, check] at valid
  split_ifs at valid with hname hempty hlong hkind hfields hreferences
  refine ⟨by simpa using hkind, fun p r hr => ?_⟩
  obtain ⟨entry, hfind, rfl⟩ := Option.map_eq_some_iff.mp hr
  have mem := List.mem_of_find?_eq_some hfind
  exact Reference.wellNamed_of_check (List.findSome?_eq_none_iff.mp valid entry mem)

/-! ### Fields of a site -/

theorem wellNamed_companion {name : String} (source : String) (type : ValueType)
    (hname : isUpperCamel name = true) : WellNamed source (companion name type) where
  name := hname
  json := ⟨_, FieldName.isLowerCamel_tag_ofCamel hname, .inr rfl⟩
  tf := .inl rfl

theorem wellNamed_companions {source : String} {f : Field} {r : Reference}
    (hf : WellNamed source f) (hr : r.WellNamed) : ∀ c ∈ companions f r, WellNamed source c := by
  have chosen {o : Option String} {suffix : String} (ho : ∀ n ∈ o, isUpperCamel n = true)
      (hsuffix : suffix.toList.all Char.isAlphanum = true) :
      isUpperCamel (o.getD (f.name ++ suffix)) = true := by
    cases o with
    | none => exact isUpperCamel_append hf.name (List.all_eq_true.mp hsuffix)
    | some n => exact ho n rfl
  unfold companions
  split
  · refine List.forall_mem_cons.mpr ⟨?_, List.forall_mem_singleton.mpr ?_⟩
    · exact wellNamed_companion source _ (chosen hr.ref (by decide))
    · exact wellNamed_companion source _ (chosen hr.selector (by decide))
  · refine List.forall_mem_cons.mpr ⟨?_, List.forall_mem_singleton.mpr ?_⟩
    · exact wellNamed_companion source _ (chosen hr.ref (by decide))
    · exact wellNamed_companion source _ (chosen hr.selector (by decide))

namespace Site

/-- A site of an attribute with a snake name whose description sets no tag, for a configuration
that was checked. -/
structure Regular (s : Site) (source : String) : Prop where
  name : s.name = .ofSnake source
  snake : FieldName.isSnakeName source = true
  json : s.comment.jsonTag = none
  tf : s.comment.tfTag = none
  reference : ∀ r ∈ s.reference, r.WellNamed

namespace Regular

variable {s : Site} {source : String} (h : s.Regular source)

include h

theorem wellNamed_plain (type : ValueType) : WellNamed source (s.plain type) := by
  rw [plain, h.name]
  exact
    { name := FieldName.isUpperCamel_camel h.snake
      json := ⟨_, FieldName.isLowerCamel_tag h.snake, .inr rfl⟩
      tf := .inr rfl }

theorem wellNamed_tagged {f : Field} (hf : WellNamed source f) (observed : Bool) :
    WellNamed source (s.tagged observed f) := by
  refine { name := hf.name, json := ?_, tf := ?_ }
  · have hjson : (s.tagged observed f).tags.json =
        if !observed && s.required then Site.withoutOmitEmpty f.tags.json else f.tags.json := by
      simp [tagged, h.json]
    rw [hjson]
    split
    · exact hf.json.withoutOmitEmpty
    · exact hf.json
  · have htf : (s.tagged observed f).tags.tf = f.tags.tf := by
      simp [tagged, h.tf]
    rw [htf]
    exact hf.tf

theorem wellNamed_base {type : ValueType} {f : Field} (hf : s.base type = .ok f) :
    WellNamed source f := by
  unfold base at hf
  split at hf
  next =>
    have hname : isUpperCamel (s.name.camel ++ secretRefSuffix) = true := by
      rw [h.name]
      exact isUpperCamel_append (FieldName.isUpperCamel_camel h.snake) alphanum_secretRefSuffix
    have htag := FieldName.isLowerCamel_tag_ofCamel hname
    split at hf
    next secret hsecret =>
      cases hf
      unfold secretField? at hsecret
      split_ifs at hsecret
      · cases hsecret
        exact ⟨hname, ⟨_, htag, .inr rfl⟩, .inl rfl⟩
      · cases hsecret
        exact ⟨hname, ⟨_, htag, .inl rfl⟩, .inl rfl⟩
    next => cases hf
  next =>
    cases hf
    exact h.wellNamed_plain type

theorem wellNamed_fields (v : Variant) :
    (∀ f ∈ s.observationFields v, WellNamed source f) ∧
      ∀ f ∈ s.parameterFields v, WellNamed source f := by
  constructor
  · unfold observationFields
    split
    · exact List.forall_mem_singleton.mpr (h.wellNamed_tagged (h.wellNamed_plain _) true)
    · simp
  · unfold parameterFields
    split
    · simp
    cases hbase : s.base v.type with
    | error e => simp
    | ok base =>
        have hf := h.wellNamed_tagged (h.wellNamed_base hbase) false
        refine List.forall_mem_cons.mpr ⟨hf, fun c hc => ?_⟩
        obtain ⟨r, hr, hmem⟩ := List.mem_flatMap.mp hc
        exact wellNamed_companions hf (h.reference r (Option.mem_toList.mp hr)) c hmem

end Regular

end Site

/-- What an attribute contributes is well named. -/
theorem Contribution.wellNamed {config : Config} (c : Contribution config) (valid : config.Valid)
    (snake : FieldName.isSnakeName c.reached.name = true)
    (untagged : ∀ comment, Comment.parse c.reached.attr.traits.description = .ok comment →
      comment.jsonTag = none ∧ comment.tfTag = none) (observed : Bool) :
    ∀ f ∈ c.fieldsOf observed, WellNamed c.reached.name f := by
  obtain ⟨hjson, htf⟩ := untagged c.comment c.parsed
  have regular : c.site.Regular c.reached.name :=
    ⟨rfl, snake, hjson, htf, fun r hr => valid.wellNamed.2 _ r hr⟩
  intro f hf
  obtain ⟨v, -, hfv⟩ := List.mem_flatMap.mp hf
  obtain ⟨observation, parameters⟩ := regular.wellNamed_fields v
  cases observed with
  | true => exact observation f hfv
  | false => exact parameters f hfv

/-! ### Type names -/

theorem mem_chains {f : Forest String} {chain c : List String}
    (hc : c ∈ (f.chains chain).preorder) :
    c ≠ [] ∧ ∀ x ∈ c, x ∈ chain ∨ ∃ name ∈ f.preorder, x = (FieldName.ofSnake name).camel := by
  induction f generalizing chain with
  | nil => cases hc
  | node name children siblings ihc ihs =>
      rw [Forest.chains, Forest.preorder] at hc
      rw [Forest.preorder]
      have first : ∀ x ∈ chain ++ [(FieldName.ofSnake name).camel],
          x ∈ chain ∨ ∃ n ∈ name :: (children.preorder ++ siblings.preorder),
            x = (FieldName.ofSnake n).camel := by
        intro x hx
        refine (List.mem_append.mp hx).imp_right fun hx => ?_
        exact ⟨name, List.mem_cons_self, List.mem_singleton.mp hx⟩
      obtain rfl | hc := List.mem_cons.mp hc
      · exact ⟨by simp, first⟩
      obtain hc | hc := List.mem_append.mp hc
      · obtain ⟨hne, hnames⟩ := ihc hc
        refine ⟨hne, fun x hx => ?_⟩
        obtain hx | ⟨n, hn, rfl⟩ := hnames x hx
        · exact first x hx
        · exact .inr ⟨n, List.mem_cons_of_mem _ (List.mem_append_left _ hn), rfl⟩
      · obtain ⟨hne, hnames⟩ := ihs hc
        refine ⟨hne, fun x hx => ?_⟩
        obtain hx | ⟨n, hn, rfl⟩ := hnames x hx
        · exact .inl hx
        · exact .inr ⟨n, List.mem_cons_of_mem _ (List.mem_append_right _ hn), rfl⟩

theorem exists_reached_of_mem_nestedIn {attributes : List (String × Attribute)} (p : FieldPath)
    (above : List Attribute) {v : String × Attribute} (h : v ∈ (nestedIn attributes).preorder) :
    ∃ r ∈ reachedIn attributes p above, r.name = v.1 := by
  induction attributes using Resource.attributes_induction generalizing p above with
  | nil => simp [Forest.preorder] at h
  | flat name a rest ha ih =>
      rw [nestedIn_cons_flat rest ha] at h
      rw [reachedIn_cons_flat rest p above ha]
      obtain ⟨r, hr, hname⟩ := ih p above h
      exact ⟨r, List.mem_cons_of_mem _ hr, hname⟩
  | nested name a inner rest ha ihi ihr =>
      rw [nestedIn_cons_nested rest ha, Forest.preorder] at h
      rw [reachedIn_cons_nested rest p above ha]
      obtain rfl | h := List.mem_cons.mp h
      · exact ⟨_, List.mem_cons_self, rfl⟩
      obtain h | h := List.mem_append.mp h
      · obtain ⟨r, hr, hname⟩ := ihi ((p.child name).inside a) (above ++ [a]) h
        exact ⟨r, List.mem_cons_of_mem _ (List.mem_append_left _ hr), hname⟩
      · obtain ⟨r, hr, hname⟩ := ihr p above h
        exact ⟨r, List.mem_cons_of_mem _ (List.mem_append_right _ hr), hname⟩

/-- What holds of the kind and of the camel names of all attributes holds along the chain of a
level. -/
theorem Resource.forall_mem_chains {schema : Resource} {kind : String} {P : String → Prop}
    (hkind : P kind) (hnames : ∀ r ∈ schema.reached, P (FieldName.ofSnake r.name).camel)
    {c : List String} (hc : c ∈ (schema.chains kind).preorder) : c ≠ [] ∧ ∀ x ∈ c, P x := by
  obtain ⟨attributes⟩ := schema
  rw [Resource.reached, Resource.reachedFrom] at hnames
  rw [Resource.chains, Forest.preorder, Forest.preorder, List.append_nil] at hc
  obtain rfl | hc := List.mem_cons.mp hc
  · exact ⟨by simp, by simpa using hkind⟩
  obtain ⟨hne, names⟩ := mem_chains hc
  refine ⟨hne, fun x hx => ?_⟩
  obtain hx | ⟨name, hname, rfl⟩ := names x hx
  · rw [List.mem_singleton.mp hx]
    exact hkind
  · rw [Resource.skeleton, Resource.nested, Forest.preorder_map] at hname
    obtain ⟨v, hv, rfl⟩ := List.mem_map.mp hname
    obtain ⟨r, hr, hrname⟩ := exists_reached_of_mem_nestedIn .root [] hv
    rw [← hrname]
    exact hnames r hr

/-- The types of a build have candidates along the chains of its levels as names. -/
theorem Built.isTypeName_of_mem_types {schema : Resource} {config : Config} {symbols : SymbolTable}
    {g : Generated} {levels : Forest BuiltLevel} (h : Built schema config symbols g levels)
    (hkind : isUpperCamel config.kind = true)
    (snake : ∀ r ∈ schema.reached, FieldName.isSnakeName r.name = true) :
    ∀ t ∈ g.types, IsTypeName t.name := by
  intro t ht
  obtain ⟨b, hb, observed, rfl⟩ := h.laidOut.mem_types.mp ht
  have named : (b.chain, b.names) ∈ (levels.map fun b => (b.chain, b.names)).postorder := by
    rw [Forest.mem_postorder, Forest.preorder_map]
    exact List.mem_map_of_mem hb
  have inChains : b.chain ∈ (schema.chains config.kind).preorder := by
    rw [← h.laidOut.chains, Forest.preorder_map]
    exact List.mem_map_of_mem hb
  obtain ⟨hparameters, hobservation⟩ := h.namedBy.candidates _ named
  obtain ⟨hne, hchain⟩ := Resource.forall_mem_chains (P := fun x => isUpperCamel x = true) hkind
    (fun r hr => FieldName.isUpperCamel_camel (snake r hr)) inChains
  cases observed with
  | true => exact hobservation.isTypeName hne hchain (List.all_eq_true.mp (by decide))
  | false => exact hparameters.isTypeName hne hchain (List.all_eq_true.mp (by decide))

/-! ### Main statement -/

/-- For a configuration that was checked and attributes with snake names and without tags of their
own, every type has the name of a type, and every field is well named for the attribute that
contributes it. -/
theorem identifiers_of_build {schema : Resource} {config : Config} {symbols : SymbolTable}
    {g : Generated} (h : (build schema config symbols).outcome = .ok g) (valid : config.Valid)
    (snake : ∀ r ∈ schema.reached, FieldName.isSnakeName r.name = true)
    (untagged : ∀ r ∈ schema.reached, ∀ c, Comment.parse r.attr.traits.description = .ok c →
      c.jsonTag = none ∧ c.tfTag = none) :
    (∀ t ∈ g.types, IsTypeName t.name ∧
      ∀ f ∈ t.fields, ∃ r ∈ schema.reached, WellNamed r.name f) ∧
    ∃ levels : Forest (FilledLevel config),
      LaidOut schema config.kind g (levels.map FilledLevel.built) ∧
      ((contributionsOf levels).map Contribution.reached).Perm schema.reached ∧
      ∀ b ∈ levels.preorder, ∀ c ∈ b.contributions, ∀ observed, ∀ f ∈ c.fieldsOf observed,
        WellNamed c.reached.name f := by
  obtain ⟨_, hb⟩ := built_of_build h
  have htypes := hb.isTypeName_of_mem_types valid.wellNamed.1 snake
  have hlaid := hb.laidOut
  obtain ⟨levels, rfl, hreached⟩ := hb.filled
  have mem {b : FilledLevel config} (hb : b ∈ levels.preorder) {c : Contribution config}
      (hc : c ∈ b.contributions) : c.reached ∈ schema.reached :=
    hreached.mem_iff.mp (List.mem_map_of_mem (List.mem_flatMap_of_mem hb hc))
  have wellNamed {b : FilledLevel config} (hb : b ∈ levels.preorder) {c : Contribution config}
      (hc : c ∈ b.contributions) (observed : Bool) :
      ∀ f ∈ c.fieldsOf observed, WellNamed c.reached.name f :=
    c.wellNamed valid (snake _ (mem hb hc)) (untagged _ (mem hb hc)) observed
  refine ⟨fun t ht => ⟨htypes t ht, fun f hf => ?_⟩, levels, hlaid, hreached,
    fun b hb c hc observed => wellNamed hb hc observed⟩
  obtain ⟨built, hbuilt, observed, rfl⟩ := hlaid.mem_types.mp ht
  rw [Forest.preorder_map] at hbuilt
  obtain ⟨b, hb, rfl⟩ := List.mem_map.mp hbuilt
  have hfields : (b.built.typeOf observed).fields =
      b.contributions.flatMap fun c => c.fieldsOf observed := b.fields observed
  rw [hfields] at hf
  obtain ⟨c, hc, hfc⟩ := List.mem_flatMap.mp hf
  exact ⟨c.reached, mem hb hc, wellNamed hb hc observed f hfc⟩

/-- Names with empty words, a final underscore, digits and acronyms: a secret, a list of resources
and a list of strings. -/
def wordySchema : Resource :=
  .mk
    [("api__key_2", .mk { kind := .string, optional := true, sensitive := true } .unset),
      ("v2_", .mk { kind := .list, optional := true } (.resource (.mk
        [("db_url", .mk { kind := .string, optional := true } .unset)]))),
      ("vpc_ids", .mk { kind := .list, optional := true }
        (.schema (.mk { kind := .string } .unset)))]

/-- The first candidates for both levels are taken, so that their types are numbered. -/
theorem identifiers_of_build_wordy :
    ∃ config symbols g, config.Valid ∧ (build wordySchema config symbols).outcome = .ok g ∧
      (g.types.map fun t => (t.name, t.fields.map Field.name)) =
        [("KV2Parameters_2", ["DbURL"]), ("KV2Observation", []),
          ("KParameters_2", ["APIKey2SecretRef", "V2", "VpcIds", "VpcIdsRefs", "VPCs"]),
          ("KObservation", ["V2"])] ∧
      ∀ t ∈ g.types, IsTypeName t.name ∧
        ∀ f ∈ t.fields, ∃ r ∈ wordySchema.reached, WellNamed r.name f := by
  let config : Config :=
    { name := "k", kind := "K",
      references := .ofList [(⟨[.field "vpc_ids", .wildcard]⟩,
        { typeName := "Vpc", selectorFieldName := some "VPCs" })] }
  let symbols : SymbolTable :=
    .ofNames ["V2Parameters", "KV2Parameters", "V2Observation", "KParameters"]
  obtain ⟨g, hg, htypes⟩ := BuildResult.exists_ok
    (f := fun g => g.types.map fun t => (t.name, t.fields.map Field.name))
    (show (build wordySchema config symbols).outcome.toOption.map _ = some
      [("KV2Parameters_2", ["DbURL"]), ("KV2Observation", []),
        ("KParameters_2", ["APIKey2SecretRef", "V2", "VpcIds", "VpcIdsRefs", "VPCs"]),
        ("KObservation", ["V2"])] by decide +kernel)
  have hempty : ∀ r ∈ wordySchema.reached, r.attr.traits.description = "" := by decide
  have untagged : ∀ r ∈ wordySchema.reached, ∀ c,
      Comment.parse r.attr.traits.description = .ok c → c.jsonTag = none ∧ c.tfTag = none := by
    intro r hr c hc
    rw [hempty r hr] at hc
    cases hc
    exact ⟨rfl, rfl⟩
  have valid : config.Valid := by decide +kernel
  obtain ⟨hnames, -⟩ := identifiers_of_build hg valid (by decide +kernel) untagged
  exact ⟨config, symbols, g, valid, hg, htypes, hnames⟩

end ResourceTypes
