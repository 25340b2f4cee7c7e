import ResourceTypes.Proofs.Build.Secrets
import ResourceTypes.Proofs.Build.Values

/-! # The field lists of generated types

`Attribute.contribution` lists the fields that an attribute contributes to each of the two types of
its level.  It depends on the attribute, its name, the reference of its path and the names of the
types of the resource to which it leads.  An attribute that is only observed contributes one field
to what is observed, or none if it is sensitive; one that can be set contributes a base field with
the companions of its reference to what can be set, and a field to what is observed when it
collects a resource.

When no element schema leads to a resource, placing the variants of an attribute adds its
contribution (`Reached.contribution_of_placed`).  A walk therefore fills its level with the
contributions of the attributes in their order (`Walk.contributes`), and so every level of a build
(`fields_are_contributions`).  `Contributes` is what a walk keeps to on the way; it has one law for
each step of a walk. -/

namespace ResourceTypes

open Build

/-! ### Contributions of attributes -/

namespace Attribute

section fields

variable (a : Attribute) (name : String) (reference : Option Reference)

/-- The documentation of the attribute; a malformed description has none. -/
def comment : Comment := (Comment.parse a.traits.description).toOption.getD {}

/-- The tags of a field, unless the description overrides them. -/
def tagsOver (json tf : String) : Tags := ⟨a.comment.jsonTag.getD json, a.comment.tfTag.getD tf⟩

/-- A field that can be set may be left out. -/
def omittable : Bool := a.traits.optional || reference.isSome

/-- The JSON tag of a field that can be set; one that is required has no option. -/
def settableTag (json : String) : String :=
  if a.comment.requiredOverride.getD (!a.omittable reference) then Site.withoutOmitEmpty json
  else json

/-- The field of an observed value. -/
def observedField (type : ValueType) : Field :=
  let n := FieldName.ofSnake name
  ⟨n.camel, type, a.tagsOver (n.tag ++ omitEmpty) (name ++ omitEmpty)⟩

/-- The field of a value that can be set. -/
def settableField (type : ValueType) : Field :=
  let n := FieldName.ofSnake name
  ⟨n.camel, type, a.tagsOver (a.settableTag reference (n.tag ++ omitEmpty)) (name ++ omitEmpty)⟩

/-- The reference to a secret in place of a sensitive value that can be set. -/
def secretField : Field :=
  let camel := (FieldName.ofSnake name).camel ++ secretRefSuffix
  let tag := (FieldName.ofCamel camel).tag
  let json := if a.omittable reference then tag ++ omitEmpty else tag
  ⟨camel, if a.omittable reference then .pointer .secretKeySelector else .secretKeySelector,
    a.tagsOver (a.settableTag reference json) suppressedTag⟩

/-- The field that stands for an attribute that can be set. -/
def baseField (names : Option TypeNames) : Field :=
  if a.traits.sensitive then a.secretField name reference
  else a.settableField name reference (a.valueType (nestedName names false))

/-- The fields for what is observed, or for what can be set. -/
def contribution (names : Option TypeNames) (observed : Bool) : List Field :=
  match a.isObservation, observed with
  | true, true =>
    if a.traits.sensitive then [] else [a.observedField name (a.valueType (nestedName names true))]
  | true, false => []
  | false, true =>
    if a.collectsResource then [a.observedField name (a.valueType (nestedName names true))] else []
  | false, false =>
    a.baseField name reference names ::
      reference.toList.flatMap (companions (a.baseField name reference names))

end fields

end Attribute

/-! ### Fields of a site -/

section site

variable {a : Attribute} {comment : Comment} (c : Config) (name : String) (l : Location)

theorem Attribute.comment_of_parse (h : Comment.parse a.traits.description = .ok comment) :
    a.comment = comment := by
  rw [Attribute.comment, h]
  rfl

theorem Attribute.valueType_of_string {named : String} (h : a.kind = .string) :
    a.valueType named = .pointer (.primitive .string) := by
  obtain ⟨traits, element⟩ := a
  have hk : Primitive.ofKind? traits.kind = some .string := by
    rw [show traits.kind = .string from h]
    rfl
  cases element <;> simp [valueType, valueTypeOver, hk]

theorem Attribute.observationFields_eq (h : Comment.parse a.traits.description = .ok comment)
    (type : ValueType) (isObservation : Bool) :
    (Site.ofAttribute c (.ofSnake name) l a.traits comment).observationFields
        ⟨type, isObservation⟩ =
      if isObservation && !a.traits.sensitive then [a.observedField name type] else [] := by
  obtain rfl := comment_of_parse h
  rfl

theorem Attribute.parameterFields_eq (h : Comment.parse a.traits.description = .ok comment)
    (text : a.traits.sensitive = true → a.kind = .string) (names : Option TypeNames) :
    (Site.ofAttribute c (.ofSnake name) l a.traits comment).parameterFields
        ⟨a.valueType (nestedName names false), false⟩ =
      a.baseField name (c.referenceFor? l.source) names ::
        (c.referenceFor? l.source).toList.flatMap
          (companions (a.baseField name (c.referenceFor? l.source) names)) := by
  obtain rfl := comment_of_parse h
  unfold baseField
  cases hs : a.traits.sensitive with
  | false =>
      rw [Site.parameterFields_value hs rfl]
      rfl
  | true =>
      have htype : (a.valueType (nestedName names false)).isStringLike = true := by
        rw [valueType_of_string (text hs)]
        rfl
      rw [Site.parameterFields_secret hs rfl htype]
      rfl

end site

/-! ### Placed attributes -/

/-- An attribute without a fault; a resource to which it leads is its own element. -/
structure Reached.Direct (kind : String) (r : Reached) : Prop where
  sound : ∀ e, ¬ r.Fault kind e
  direct : r.attr.nested?.isSome = true → r.attr.holdsDirectly = true

theorem Reached.Direct.variants_eq {kind : String} {r : Reached} (h : r.Direct kind)
    {names : Option TypeNames} (hn : names.isSome = r.attr.nested?.isSome) :
    r.attr.variants names =
      (if r.attr.isObservation || r.attr.collectsResource then
        [⟨r.attr.valueType (nestedName names true), true⟩] else []) ++
      if r.attr.isObservation then [] else
        [⟨r.attr.valueType (nestedName names false), false⟩] :=
  Attribute.variants_eq (p := r.path) hn (fun _ hv _ he => h.sound _ (.node hv he)) h.direct

theorem Reached.Direct.collectsResource_of_sensitive {kind : String} {r : Reached}
    (h : r.Direct kind) (ho : r.attr.isObservation = false)
    (hs : r.attr.traits.sensitive = true) : r.attr.collectsResource = false := by
  rw [Attribute.collectsResource, r.kind_of_sensitive h.sound hs ho]
  rfl

/-- Placing the variants of an attribute adds its contribution. -/
theorem Reached.contribution_of_placed {config : Config} {r : Reached} (hr : r.Direct config.kind)
    {comment : Comment} (parsed : Comment.parse r.attr.traits.description = .ok comment)
    (names : Option TypeNames) (hn : names.isSome = r.attr.nested?.isSome)
    {level level' : Level} {s t : BuildState} (hc : s.config.references = config.references)
    (h : Returns (placeVariants
      (.ofAttribute s.config (.ofSnake r.name) (.ofPath config.kind r.path) r.attr.traits comment)
      (r.attr.variants names) level) s level' t) (observed : Bool) :
    level'.fieldsOf observed = level.fieldsOf observed ++
      r.attr.contribution r.name (config.referenceFor? r.path) names observed := by
  rw [Site.ofAttribute_congr hc, hr.variants_eq hn] at h
  obtain ⟨rfl, -⟩ := returns_placeVariants h
  rw [Level.fieldsOf_extend]
  unfold Attribute.contribution
  cases ho : r.attr.isObservation with
  | true =>
      have hparameters := Site.parameterFields_observed
        (s := .ofAttribute config (.ofSnake r.name) (.ofPath config.kind r.path) r.attr.traits
          comment) (v := ⟨r.attr.valueType (nestedName names true), true⟩) rfl
      cases observed with
      | true =>
          cases hs : r.attr.traits.sensitive <;>
            simp [Attribute.observationFields_eq, parsed, hs]
      | false => simp [hparameters]
  | false =>
      have hparameters := Attribute.parameterFields_eq config r.name (.ofPath config.kind r.path)
        parsed (fun hs => r.kind_of_sensitive hr.sound hs ho) names
      cases observed with
      | true =>
          cases hs : r.attr.traits.sensitive with
          | true =>
              simp [Attribute.observationFields_eq, parsed, hr.collectsResource_of_sensitive ho hs]
          | false =>
              cases r.attr.collectsResource <;> simp [Attribute.observationFields_eq, parsed, hs]
      | false =>
          cases r.attr.collectsResource <;> simp [hparameters, Site.parameterFields_observed]

/-! ### Levels and their attributes -/

/-- The paths of nested resources, where the one around them is at the given path. -/
def Forest.paths (p : FieldPath) : Forest (String × Attribute) → Forest FieldPath
  | .nil => .nil
  | .node (name, a) children siblings =>
    let inner := (p.child name).inside a
    .node inner (children.paths inner) (siblings.paths p)

/-- The paths of a resource and of all resources nested in it. -/
def Resource.paths (r : Resource) : Forest FieldPath := .node .root (r.nested.paths .root) .nil

/-- The path of the resource. -/
def BuiltLevel.path (b : BuiltLevel) : FieldPath := b.location.source

/-- The attributes of the resource: the whole schema at the root, else the resource to which the
attribute of the level leads. -/
def BuiltLevel.attributes (schema : Resource) (b : BuiltLevel) : List (String × Attribute) :=
  match b.holder with
  | none => schema.attributes
  | some v => (v.2.nested?.map Resource.attributes).getD []

/-- The names of the types of the level to which the attribute of a name leads. -/
def namesUnder (children : List BuiltLevel) (name : String) : Option TypeNames :=
  (children.find? fun b => b.holder.map Prod.fst = some name).map BuiltLevel.names

/-- The contributions of attributes in their order. -/
def contributionsAt (config : Config) (p : FieldPath) (children : List BuiltLevel)
    (attributes : List (String × Attribute)) (observed : Bool) : List Field :=
  attributes.flatMap fun e =>
    e.2.contribution e.1 (config.referenceFor? (p.child e.1)) (namesUnder children e.1) observed

/-- The attributes of a level are sorted by name, those that lead to resources have the levels of
these as its children, and the fields of both types are the contributions in order. -/
structure Contributed (config : Config) (attributes : List (String × Attribute)) (b : BuiltLevel)
    (children : List BuiltLevel) : Prop where
  sorted : attributes.Pairwise fun e e' => compare e.1 e'.1 = .lt
  leads : ∀ e ∈ attributes, (namesUnder children e.1).isSome = e.2.nested?.isSome
  fields : ∀ observed,
    (b.typeOf observed).fields = contributionsAt config b.path children attributes observed

theorem namesUnder_cons_self {b : BuiltLevel} (rest : List BuiltLevel) {name : String}
    {a : Attribute} (h : b.holder = some (name, a)) :
    namesUnder (b :: rest) name = some b.names := by
  simp [namesUnder, h]

theorem namesUnder_cons_of_ne {b : BuiltLevel} (rest : List BuiltLevel) {name other : String}
    {a : Attribute} (h : b.holder = some (name, a)) (hne : name ≠ other) :
    namesUnder (b :: rest) other = namesUnder rest other := by
  simp [namesUnder, h, hne]

theorem contributionsAt_cons (config : Config) (p : FieldPath) {children : List BuiltLevel}
    {name : String} (a : Attribute) (rest : List (String × Attribute)) {names : Option TypeNames}
    (h : namesUnder children name = names) (observed : Bool) :
    contributionsAt config p children ((name, a) :: rest) observed =
      a.contribution name (config.referenceFor? (p.child name)) names observed ++
        contributionsAt config p children rest observed := by
  subst h
  exact List.flatMap_cons

theorem contributionsAt_congr (config : Config) (p : FieldPath)
    {children children' : List BuiltLevel} {attributes : List (String × Attribute)}
    (h : ∀ e ∈ attributes, namesUnder children e.1 = namesUnder children' e.1) (observed : Bool) :
    contributionsAt config p children attributes observed =
      contributionsAt config p children' attributes observed := by
  induction attributes with
  | nil => rfl
  | cons first rest ih =>
      obtain ⟨hfirst, hrest⟩ := List.forall_mem_cons.mp h
      rw [contributionsAt_cons config p first.2 rest hfirst,
        contributionsAt_cons config p first.2 rest rfl, ih hrest]

/-- What visiting attributes at a path does to their level, with the levels that it builds: an
attribute that leads to a resource has one of them under its name, the contributions come behind
the fields of the level, and the levels below consist of contributions. -/
structure Contributes (config : Config) (schema : Resource) (p : FieldPath)
    (attributes : List (String × Attribute)) (level level' : Level) (levels : Forest BuiltLevel) :
    Prop where
  leads : ∀ e ∈ attributes, (namesUnder levels.roots e.1).isSome = e.2.nested?.isSome
  fields : ∀ observed, level'.fieldsOf observed =
    level.fieldsOf observed ++ contributionsAt config p levels.roots attributes observed
  families : ∀ v ∈ levels.families, Contributed config (v.1.attributes schema) v.1 v.2

namespace Contributes

variable {config : Config} {schema : Resource} {p : FieldPath} {name : String} {a : Attribute}
  {inner rest attributes : List (String × Attribute)} {level level₁ level₂ : Level}

theorem nil : Contributes config schema p [] level level .nil :=
  ⟨by simp, fun _ => (List.append_nil _).symm, by simp [Forest.families]⟩

theorem contributed {b : BuiltLevel} {children : Forest BuiltLevel} {l : Location}
    {s t : BuildState} (h : Contributes config schema p attributes level b.level children)
    (opens : Returns (openLevel l) s level t) (hp : b.path = p)
    (sorted : attributes.Pairwise fun e e' => compare e.1 e'.1 = .lt) :
    Contributed config attributes b children.roots := by
  refine ⟨sorted, h.leads, fun observed => ?_⟩
  have hfields := h.fields observed
  rw [fieldsOf_openLevel opens, List.nil_append] at hfields
  rw [hp]
  exact hfields

theorem flat {levels : Forest BuiltLevel} (leads : a.nested? = none)
    (unnamed : namesUnder levels.roots name = none)
    (first : ∀ observed, level₁.fieldsOf observed = level.fieldsOf observed ++
      a.contribution name (config.referenceFor? (p.child name)) none observed)
    (others : Contributes config schema p rest level₁ level₂ levels) :
    Contributes config schema p ((name, a) :: rest) level level₂ levels := by
  refine ⟨List.forall_mem_cons.mpr ⟨by rw [unnamed, leads]; rfl, others.leads⟩,
    fun observed => ?_, others.families⟩
  rw [others.fields, first, contributionsAt_cons config p a rest unnamed, List.append_assoc]

/-- An attribute that leads to a resource comes before others, none of which has its name, and the
level of its resource before theirs. -/
theorem nested {child : BuiltLevel} {below beside : Forest BuiltLevel}
    (leads : a.nested? = some (.mk inner)) (holder : child.holder = some (name, a))
    (unnamed : name ∉ rest.map Prod.fst)
    (inside : Contributed config inner child below.roots)
    (families : ∀ v ∈ below.families, Contributed config (v.1.attributes schema) v.1 v.2)
    (first : ∀ observed, level₁.fieldsOf observed = level.fieldsOf observed ++
      a.contribution name (config.referenceFor? (p.child name)) (some child.names) observed)
    (others : Contributes config schema p rest level₁ level₂ beside) :
    Contributes config schema p ((name, a) :: rest) level level₂ (.node child below beside) := by
  -- The new level is the child of the first attribute and of no other.
  have hself : namesUnder (child :: beside.roots) name = some child.names :=
    namesUnder_cons_self _ holder
  have hother (e : String × Attribute) (he : e ∈ rest) :
      namesUnder (child :: beside.roots) e.1 = namesUnder beside.roots e.1 :=
    namesUnder_cons_of_ne _ holder fun hname => unnamed (hname ▸ List.mem_map_of_mem he)
  have hattributes : child.attributes schema = inner := by
    simp [BuiltLevel.attributes, holder, leads, Resource.attributes]
  rw [← hattributes] at inside
  constructor
  case leads =>
    refine List.forall_mem_cons.mpr ⟨?_, fun e he => ?_⟩
    · rw [Forest.roots, hself, leads]
      rfl
    · rw [Forest.roots, hother e he]
      exact others.leads e he
  case fields =>
    intro observed
    rw [Forest.roots, others.fields, first, contributionsAt_cons config p a rest hself,
      contributionsAt_congr config p hother, List.append_assoc]
  case families =>
    rw [Forest.families]
    exact List.forall_mem_cons.mpr
      ⟨inside, List.forall_mem_append.mpr ⟨families, others.families⟩⟩

end Contributes

namespace Walk

variable {attributes : List (String × Attribute)} {l : Location} {level level' : Level}
  {s t : BuildState} {levels : Forest BuiltLevel} {config : Config}

theorem paths (h : Walk attributes l level s levels level' t) {kind : String} (p : FieldPath)
    (hl : l = .ofPath kind p) : levels.map BuiltLevel.path = (nestedIn attributes).paths p := by
  induction h generalizing p with
  | nil => simp [Forest.map, Forest.paths]
  | flat leads _ _ _ _ ih => rw [ih p hl, nestedIn_cons_flat _ leads]
  | @nested name a _ _ _ _ _ _ _ _ _ _ _ _ _ _ _ _ _ _ _ leads _ _ _ _ _ _ _ ihb iho =>
      subst hl
      rw [nestedIn_cons_nested _ leads, Forest.map, Forest.paths,
        ihb ((p.child name).inside a) (by simp), iho p rfl]
      simp [BuiltLevel.path]

theorem namesUnder_eq_none (h : Walk attributes l level s levels level' t) {name : String}
    (hname : name ∉ attributes.map Prod.fst) : namesUnder levels.roots name = none := by
  have hroots : levels.roots.map BuiltLevel.holder = (nestedIn attributes).roots.map some := by
    rw [← Forest.roots_map, h.holders, Forest.roots_map]
  rw [namesUnder, Option.map_eq_none_iff, List.find?_eq_none]
  intro b hb hholder
  have hmem := List.mem_map_of_mem (f := BuiltLevel.holder) hb
  rw [hroots] at hmem
  obtain ⟨v, hv, he⟩ := List.mem_map.mp hmem
  rw [← he, decide_eq_true_eq, Option.map_some, Option.some.injEq] at hholder
  exact hname (hholder ▸ List.mem_map_of_mem ((roots_nestedIn_sublist attributes).subset hv))

/-- Visiting attributes adds their contributions in order, and fills all levels below in the same
way. -/
theorem contributes (h : Walk attributes l level s levels level' t) (schema : Resource)
    (p : FieldPath) (above : List Attribute) (hl : l = .ofPath config.kind p)
    (hc : s.config.references = config.references) (ordered : (Resource.mk attributes).Ordered)
    (direct : ∀ r ∈ reachedIn attributes p above, r.Direct config.kind) :
    Contributes config schema p attributes level level' levels := by
  induction h generalizing p above with
  | nil => exact .nil
  | flat leads parsed registered placed others ih =>
      subst hl
      rw [Location.field_ofPath] at placed
      have hc₁ := (registers_registerIgnored registered).references.trans hc
      have hc₂ := (registers_placeVariants placed).references.trans hc₁
      rw [reachedIn_cons_flat _ p above leads] at direct
      obtain ⟨hfirst, hrest⟩ := List.forall_mem_cons.mp direct
      obtain ⟨-, -, hordered⟩ := Resource.ordered_cons.mp ordered
      have hplaced := Reached.contribution_of_placed hfirst parsed none (by rw [leads]; rfl) hc₁
        placed
      exact .flat leads (others.namesUnder_eq_none ordered.name_not_mem) hplaced
        (ih p above rfl hc₂ hordered hrest)
  | @nested name a inner rest _ _ filled _ _ _ _ _ _ _ _ _ _ _ _ _ _ leads parsed registered opens
      visits closes placed others ihb iho =>
      subst hl
      rw [Location.field_ofPath] at placed
      have hc₁ := (registers_registerIgnored registered).references.trans hc
      have hc₂ := (registers_openLevel opens).references.trans hc₁
      have hc₃ := visits.references.trans hc₂
      have hc₄ := (registers_closeLevel closes).references.trans hc₃
      have hc₅ := (registers_placeVariants placed).references.trans hc₄
      rw [reachedIn_cons_nested _ p above leads] at direct
      obtain ⟨hfirst, hothers⟩ := List.forall_mem_cons.mp direct
      obtain ⟨hbelow, hrest⟩ := List.forall_mem_append.mp hothers
      obtain ⟨-, hordereda, hordered⟩ := Resource.ordered_cons.mp ordered
      have hinner := Attribute.ordered_nested? leads hordereda
      have hplaced := Reached.contribution_of_placed hfirst parsed (some filled.typeNames)
        (by rw [leads]; rfl) hc₄ placed
      have inside := ihb ((p.child name).inside a) (above ++ [a]) (by simp) hc₂ hinner hbelow
      exact .nested leads rfl ordered.name_not_mem
        (inside.contributed opens (by simp [BuiltLevel.path]) hinner.pairwise) inside.families
        hplaced (iho p above rfl hc₅ hordered hrest)

end Walk

theorem direct_of_build {schema : Resource} {config : Config} {symbols : SymbolTable}
    {g : Generated} (h : (build schema config symbols).outcome = .ok g)
    (direct : ∀ r ∈ schema.reached, r.attr.nested?.isSome = true → r.attr.holdsDirectly = true) :
    ∀ r ∈ schema.reached, r.Direct config.kind :=
  fun r hr => ⟨sound_of_build h r hr, direct r hr⟩

/-! ### Main statement -/

/-- When every resource to which an attribute leads is the element of the attribute itself, the
fields of the two types of each level are the contributions of its attributes in the order of
their names, for the reference of each at its path and the types of the level to which it leads. -/
theorem fields_are_contributions {schema : Resource} {config : Config} {symbols : SymbolTable}
    {g : Generated} (h : (build schema config symbols).outcome = .ok g) (ordered : schema.Ordered)
    (direct : ∀ r ∈ schema.reached, r.attr.nested?.isSome = true → r.attr.holdsDirectly = true) :
    ∃ levels, LaidOut schema config.kind g levels ∧ levels.map BuiltLevel.path = schema.paths ∧
      ∀ v ∈ levels.families, Contributed config (v.1.attributes schema) v.1 v.2 := by
  obtain ⟨levels, hb⟩ := built_of_build h
  have hdirect := direct_of_build h direct
  have hlaid := hb.laidOut
  obtain ⟨opens, visits, -, -⟩ := hb
  refine ⟨_, hlaid, ?_, ?_⟩
  · obtain ⟨attributes⟩ := schema
    have hpaths := visits.paths .root (Location.root_eq_ofPath config.kind)
    rw [Forest.map, hpaths, Resource.paths, Resource.nested]
    rfl
  · obtain ⟨attributes⟩ := schema
    rw [Resource.reached, Resource.reachedFrom] at hdirect
    have hc := (registers_openLevel opens).references
    have contributes := visits.contributes (.mk attributes) .root []
      (Location.root_eq_ofPath config.kind) hc ordered hdirect
    rw [Forest.families, Forest.families, List.append_nil]
    exact List.forall_mem_cons.mpr
      ⟨contributes.contributed opens rfl ordered.pairwise, contributes.families⟩

/-- A secret, a list of resources with a reference in it, and an attribute that is only observed. -/
def networkSchema : Resource :=
  .mk
    [("access_key", .mk { kind := .string, optional := true, sensitive := true } .unset),
      ("network", .mk { kind := .list, optional := true }
        (.resource (.mk [("subnet_id", .mk { kind := .string, optional := true } .unset)]))),
      ("status", .mk { kind := .map, computed := true } .unset)]

theorem fields_are_contributions_network :
    ∃ config g levels, (build networkSchema config .empty).outcome = .ok g ∧
      (g.types.map fun t => t.fields.map Field.name) =
        [["SubnetID", "SubnetIDRef", "SubnetIDSelector"], [], ["AccessKeySecretRef", "Network"],
          ["Network", "Status"]] ∧
      LaidOut networkSchema config.kind g levels ∧
      ∀ v ∈ levels.families, Contributed config (v.1.attributes networkSchema) v.1 v.2 := by
  let config : Config :=
    { name := "k", kind := "K",
      references := .ofList [(⟨[.field "network", .field "subnet_id"]⟩, { typeName := "Subnet" })] }
  obtain ⟨g, hg, hfields⟩ := BuildResult.exists_ok
    (f := fun g => g.types.map fun t => t.fields.map Field.name)
    (show (build networkSchema config .empty).outcome.toOption.map _ =
      some [["SubnetID", "SubnetIDRef", "SubnetIDSelector"], [], ["AccessKeySecretRef", "Network"],
        ["Network", "Status"]] by decide +kernel)
  have hordered : networkSchema.Ordered := by
    simp only [networkSchema, Resource.Ordered, AttributesOrdered, Attribute.Ordered,
      Element.Ordered]
    decide
  obtain ⟨levels, hlaid, -, hlevels⟩ := fields_are_contributions hg hordered (by decide +kernel)
  exact ⟨config, g, levels, hg, hfields, hlaid, hlevels⟩

end ResourceTypes
