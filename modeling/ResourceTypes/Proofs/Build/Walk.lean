import ResourceTypes.Proofs.Build.Placement
import ResourceTypes.Proofs.Build.Resolution

/-! # The walk of a build

`Walk` follows a build that succeeds from attribute to attribute.  It keeps the order of the
build: a level is opened, its attributes are visited, which builds all levels nested in it, and
it is closed before the variants of the attribute that leads to it are placed.  The index
`levels` of a walk is the forest of the levels that it builds.

Every success is a walk (`walk_of_fields`, `built_of_build`), so that a fact about successful
builds is an induction on walks.  The first such facts are here: the levels are the nested
resources of the schema (`Walk.holders`, `Walk.chains`), their names are those that the table
gives in pre-order (`Walk.named`), and their types are emitted in post-order (`Walk.types`). -/

namespace ResourceTypes

open Build

/-- A resource with what a build made of it. -/
structure BuiltLevel where
  /-- The attribute that leads to the resource; none leads to the root. -/
  holder : Option (String × Attribute)
  location : Location
  level : Level

namespace BuiltLevel

/-- The kind and the camel names of the attributes from the root on. -/
def chain (b : BuiltLevel) : List String := b.location.names

/-- The names of the two types. -/
def names (b : BuiltLevel) : TypeNames := b.level.typeNames

/-- The two types in the order in which they are emitted. -/
def types (b : BuiltLevel) : List TypeDecl :=
  [⟨b.level.parameters, b.level.parameterFields⟩, ⟨b.level.observation, b.level.observationFields⟩]

end BuiltLevel

/-- A successful visit of attributes: from the level and state before to those after, with the
levels that it builds. -/
inductive Walk : List (String × Attribute) → Location → Level → BuildState →
    Forest BuiltLevel → Level → BuildState → Prop
  | nil {l : Location} {level : Level} {s : BuildState} : Walk [] l level s .nil level s
  | flat {name : String} {a : Attribute} {rest : List (String × Attribute)} {l : Location}
      {level level₁ level₂ : Level} {s s₁ s₂ s₃ : BuildState} {comment : Comment}
      {levels : Forest BuiltLevel}
      (leads : a.nested? = none)
      (parsed : Comment.parse a.traits.description = .ok comment)
      (registered : Returns (registerIgnored (l.field (.ofSnake name))) s () s₁)
      (placed : Returns
        (placeVariants
          (.ofAttribute s₁.config (.ofSnake name) (l.field (.ofSnake name)) a.traits comment)
          (a.variants none) level) s₁ level₁ s₂)
      (others : Walk rest l level₁ s₂ levels level₂ s₃) :
      Walk ((name, a) :: rest) l level s levels level₂ s₃
  | nested {name : String} {a : Attribute} {inner rest : List (String × Attribute)}
      {l : Location} {opened filled level level₁ level₂ : Level} {refs : TypeRef × TypeRef}
      {s s₁ s₂ s₃ s₄ s₅ s₆ : BuildState} {comment : Comment} {below beside : Forest BuiltLevel}
      (leads : a.nested? = some (.mk inner))
      (parsed : Comment.parse a.traits.description = .ok comment)
      (registered : Returns (registerIgnored (l.field (.ofSnake name))) s () s₁)
      (opens : Returns (openLevel ((l.field (.ofSnake name)).inside a)) s₁ opened s₂)
      (visits : Walk inner ((l.field (.ofSnake name)).inside a) opened s₂ below filled s₃)
      (closes : Returns (closeLevel ((l.field (.ofSnake name)).inside a) filled) s₃ refs s₄)
      (placed : Returns
        (placeVariants
          (.ofAttribute s₄.config (.ofSnake name) (l.field (.ofSnake name)) a.traits comment)
          (a.variants (some filled.typeNames)) level) s₄ level₁ s₅)
      (others : Walk rest l level₁ s₅ beside level₂ s₆) :
      Walk ((name, a) :: rest) l level s
        (.node ⟨some (name, a), (l.field (.ofSnake name)).inside a, filled⟩ below beside) level₂ s₆

/-! ### Every success is a walk -/

section success

variable {s t : BuildState}

theorem returns_resource {attributes : List (String × Attribute)} {l : Location} {depth : Nat}
    {refs : TypeRef × TypeRef} (h : Returns (resource (.mk attributes) l depth) s refs t) :
    ∃ opened filled u v, Returns (openLevel l) s opened u ∧
      Returns (fields attributes l depth opened) u filled v ∧
      Returns (closeLevel l filled) v refs t := by
  rw [resource] at h
  split at h
  · exact absurd h not_returns_throw
  · obtain ⟨opened, u, ho, h⟩ := returns_bind.mp h
    obtain ⟨filled, v, hf, hc⟩ := returns_bind.mp h
    exact ⟨opened, filled, u, v, ho, hf, hc⟩

theorem returns_fields_cons {name : String} {a : Attribute} {rest : List (String × Attribute)}
    {l : Location} {depth : Nat} {level level' : Level}
    (h : Returns (fields ((name, a) :: rest) l depth level) s level' t) :
    ∃ comment variants placed s₁ s₂ s₃, Comment.parse a.traits.description = .ok comment ∧
      Returns (registerIgnored (l.field (.ofSnake name))) s () s₁ ∧
      Returns (schema a (l.field (.ofSnake name)) depth) s₁ variants s₂ ∧
      Returns (placeVariants
        (.ofAttribute s₂.config (.ofSnake name) (l.field (.ofSnake name)) a.traits comment)
        variants level) s₂ placed s₃ ∧
      Returns (fields rest l depth placed) s₃ level' t := by
  rw [fields] at h
  obtain ⟨comment, _, hparse, h⟩ := returns_bind.mp h
  obtain ⟨hcom, rfl⟩ := returns_commentOf.mp hparse
  obtain ⟨_, s₁, hreg, h⟩ := returns_bind.mp h
  obtain ⟨variants, s₂, hsch, h⟩ := returns_bind.mp h
  obtain ⟨site, _, hsite, h⟩ := returns_bind.mp h
  obtain ⟨rfl, rfl⟩ := returns_siteOf.mp hsite
  obtain ⟨placed, s₃, hplace, h⟩ := returns_bind.mp h
  exact ⟨comment, variants, placed, s₁, s₂, s₃, hcom, hreg, returns_within.mp hsch,
    returns_within.mp hplace, h⟩

theorem walk_of_fields {attributes : List (String × Attribute)} {l : Location} {depth : Nat}
    {level level' : Level} (h : Returns (fields attributes l depth level) s level' t) :
    ∃ levels, Walk attributes l level s levels level' t := by
  induction attributes using Resource.attributes_induction
    generalizing l depth level level' s t with
  | nil =>
      rw [fields] at h
      obtain ⟨rfl, rfl⟩ := returns_pure.mp h
      exact ⟨.nil, .nil⟩
  | flat name a rest ha ih =>
      obtain ⟨comment, _, placed, s₁, _, s₃, hcom, hreg, hsch, hplace, hrest⟩ :=
        returns_fields_cons h
      obtain ⟨rfl, rfl⟩ := returns_schema_of_flat ha hsch
      obtain ⟨levels, hw⟩ := ih hrest
      exact ⟨levels, .flat ha hcom hreg hplace hw⟩
  | nested name a inner rest ha ihi ihr =>
      obtain ⟨comment, _, placed, s₁, s₂, s₃, hcom, hreg, hsch, hplace, hrest⟩ :=
        returns_fields_cons h
      obtain ⟨refs, hr, rfl⟩ := returns_schema_of_nested ha hsch
      obtain ⟨opened, filled, u, v, hopen, hfill, hclose⟩ := returns_resource hr
      obtain ⟨below, hbelow⟩ := ihi hfill
      obtain ⟨beside, hbeside⟩ := ihr hrest
      obtain ⟨hrefs, -, -⟩ := returns_closeLevel hclose
      rw [hrefs] at hplace
      exact ⟨_, .nested ha hcom hreg hopen hbelow hclose hplace hbeside⟩

end success

theorem BuildResult.exists_ok {α : Type} {r : BuildResult} {f : Generated → α} {a : α}
    (h : r.outcome.toOption.map f = some a) : ∃ g, r.outcome = .ok g ∧ f g = a := by
  cases hr : r.outcome with
  | error e => simp [hr, Except.toOption] at h
  | ok g => exact ⟨g, rfl, by simpa [hr, Except.toOption] using h⟩

/-- The error of a build that fails. -/
def BuildResult.error? (r : BuildResult) : Option BuildError :=
  match r.outcome with
  | .ok _ => none
  | .error e => some e

theorem BuildResult.exists_error {α : Type} {r : BuildResult} {f : BuildError → α} {a : α}
    (h : r.error?.map f = some a) : ∃ e, r.outcome = .error e ∧ f e = a := by
  cases hr : r.outcome with
  | error e => exact ⟨e, rfl, by simpa [error?, hr] using h⟩
  | ok g => simp [error?, hr] at h

/-- The levels of a build that succeeds with `g`. -/
inductive Built (schema : Resource) (config : Config) (symbols : SymbolTable) (g : Generated) :
    Forest BuiltLevel → Prop
  | mk {opened filled : Level} {u v t : BuildState} {refs : TypeRef × TypeRef}
      {below : Forest BuiltLevel}
      (opens : Returns (openLevel (.root config.kind)) { symbols, config } opened u)
      (visits : Walk schema.attributes (.root config.kind) opened u below filled v)
      (closes : Returns (closeLevel (.root config.kind) filled) v refs t)
      (result : g = ⟨t.types, t.comments, refs.1.index, refs.2.index⟩) :
      Built schema config symbols g (.node ⟨none, .root config.kind, filled⟩ below .nil)

theorem returns_root_of_build {schema : Resource} {config : Config} {symbols : SymbolTable}
    {g : Generated} (h : (build schema config symbols).outcome = .ok g) :
    ∃ refs t, Returns (resource schema (.root config.kind) 0) { symbols, config } refs t ∧
      g = ⟨t.types, t.comments, refs.1.index, refs.2.index⟩ := by
  have hb : (build schema config symbols).outcome =
      (runFrom (Build.root schema) { symbols, config }).1.map fun r =>
        ⟨(runFrom (Build.root schema) { symbols, config }).2.types,
          (runFrom (Build.root schema) { symbols, config }).2.comments, r.1.index, r.2.index⟩ := rfl
  rw [hb] at h
  rcases hr : runFrom (Build.root schema) { symbols, config } with ⟨e | refs, t⟩
  · rw [hr] at h
    cases h
  · rw [hr] at h
    obtain ⟨_, _, hget, hres⟩ := returns_bind.mp (show Returns (Build.root schema) _ refs t from hr)
    obtain ⟨rfl, rfl⟩ := returns_get.mp hget
    exact ⟨refs, t, returns_within.mp hres, by cases h; rfl⟩

theorem built_of_build {schema : Resource} {config : Config} {symbols : SymbolTable}
    {g : Generated} (h : (build schema config symbols).outcome = .ok g) :
    ∃ levels, Built schema config symbols g levels := by
  obtain ⟨refs, t, hr, hg⟩ := returns_root_of_build h
  obtain ⟨attributes⟩ := schema
  obtain ⟨opened, filled, u, v, hopen, hfill, hclose⟩ := returns_resource hr
  obtain ⟨below, hw⟩ := walk_of_fields hfill
  exact ⟨_, .mk hopen hw hclose hg⟩

/-! ### The levels of a walk -/

namespace Walk

variable {attributes : List (String × Attribute)} {l : Location} {level level' : Level}
  {s t : BuildState} {levels : Forest BuiltLevel}

/-- The levels are the nested resources, each under its attribute. -/
theorem holders (h : Walk attributes l level s levels level' t) :
    levels.map BuiltLevel.holder = (nestedIn attributes).map some := by
  induction h with
  | nil => simp [Forest.map]
  | flat leads _ _ _ _ ih => rw [ih, nestedIn_cons_flat _ leads]
  | nested leads _ _ _ _ _ _ _ ihb iho =>
      rw [nestedIn_cons_nested _ leads, Forest.map, Forest.map, ihb, iho]

/-- The chains of the levels are those of the skeleton. -/
theorem chains (h : Walk attributes l level s levels level' t) :
    levels.map BuiltLevel.chain = ((nestedIn attributes).map Prod.fst).chains l.names := by
  induction h with
  | nil => simp [Forest.map, Forest.chains]
  | flat leads _ _ _ _ ih => rw [ih, nestedIn_cons_flat _ leads]
  | nested leads _ _ _ _ _ _ _ ihb iho =>
      rw [nestedIn_cons_nested _ leads, Forest.map, Forest.map, Forest.chains, ihb, iho]
      simp only [BuiltLevel.chain, Location.names_inside, Location.field, FieldName.ofSnake]

theorem level_names (h : Walk attributes l level s levels level' t) :
    level'.typeNames = level.typeNames := by
  induction h with
  | nil => rfl
  | flat _ _ _ placed _ ih =>
      obtain ⟨rfl, -⟩ := returns_placeVariants placed
      exact ih
  | nested _ _ _ _ _ _ placed _ _ iho =>
      obtain ⟨rfl, -⟩ := returns_placeVariants placed
      exact iho

/-- The levels are named one after the other in pre-order. -/
theorem named (h : Walk attributes l level s levels level' t) :
    s.symbols.nameLevels (levels.preorder.map BuiltLevel.chain) =
      .ok (levels.preorder.map BuiltLevel.names, t.symbols) := by
  induction h with
  | nil => rfl
  | flat _ _ registered placed _ ih =>
      rw [← (keepsTypes_registerIgnored registered).symbols,
        ← (returns_placeVariants placed).2.symbols]
      exact ih
  | nested _ _ registered opens visits closes placed _ ihb iho =>
      obtain ⟨-, hc, -⟩ := returns_closeLevel closes
      rw [(returns_placeVariants placed).2.symbols, hc] at iho
      rw [← (keepsTypes_registerIgnored registered).symbols, Forest.preorder, List.map_cons,
        List.map_cons, List.map_append, List.map_append]
      exact nameLevels_of_openLevel opens visits.level_names (SymbolTable.nameLevels_append ihb iho)

/-- The types of the levels are emitted in post-order. -/
theorem types (h : Walk attributes l level s levels level' t) :
    t.types = s.types ++ levels.postorder.flatMap BuiltLevel.types := by
  induction h with
  | nil => simp [Forest.postorder]
  | flat _ _ registered placed _ ih =>
      rw [ih, (returns_placeVariants placed).2.types, (keepsTypes_registerIgnored registered).types]
  | nested _ _ registered opens _ closes placed _ ihb iho =>
      obtain ⟨n, u, -, -, rfl⟩ := returns_openLevel.mp opens
      obtain ⟨-, -, hc⟩ := returns_closeLevel closes
      rw [iho, (returns_placeVariants placed).2.types, hc, ihb,
        (keepsTypes_registerIgnored registered).types]
      simp [Forest.postorder, BuiltLevel.types]

end Walk

/-! ### The levels of a build -/

namespace Built

variable {schema : Resource} {config : Config} {symbols : SymbolTable} {g : Generated}
  {levels : Forest BuiltLevel}

theorem holders (h : Built schema config symbols g levels) :
    levels.map BuiltLevel.holder = .node none (schema.nested.map some) .nil := by
  obtain ⟨_, visits, _, _⟩ := h
  obtain ⟨attributes⟩ := schema
  rw [Forest.map, visits.holders, Resource.nested]
  rfl

theorem chains (h : Built schema config symbols g levels) :
    levels.map BuiltLevel.chain = schema.chains config.kind := by
  obtain ⟨_, visits, _, _⟩ := h
  obtain ⟨attributes⟩ := schema
  rw [Forest.map, visits.chains, Resource.chains, Resource.skeleton, Resource.nested]
  rfl

theorem named (h : Built schema config symbols g levels) :
    ∃ table, symbols.nameLevels (levels.preorder.map BuiltLevel.chain) =
      .ok (levels.preorder.map BuiltLevel.names, table) := by
  obtain ⟨opens, visits, _, _⟩ := h
  have key := nameLevels_of_openLevel opens visits.level_names visits.named
  rw [Forest.preorder, List.map_cons, List.map_cons, Forest.preorder, List.append_nil]
  exact ⟨_, key⟩

theorem types (h : Built schema config symbols g levels) :
    g.types = levels.postorder.flatMap BuiltLevel.types := by
  obtain ⟨opens, visits, closes, rfl⟩ := h
  obtain ⟨n, u, -, -, rfl⟩ := returns_openLevel.mp opens
  obtain ⟨-, -, hc⟩ := returns_closeLevel closes
  rw [hc, visits.types]
  simp [Forest.postorder, BuiltLevel.types]

theorem handles (h : Built schema config symbols g levels) :
    g.forProvider + 2 = g.types.length ∧ g.atProvider + 1 = g.types.length := by
  obtain ⟨_, _, closes, rfl⟩ := h
  obtain ⟨rfl, -, hc⟩ := returns_closeLevel closes
  simp [hc]

end Built

end ResourceTypes
