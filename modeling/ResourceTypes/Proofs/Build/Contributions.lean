import Mathlib.Data.List.Perm.Basic
import ResourceTypes.Proofs.Build.Documents
import ResourceTypes.Proofs.Build.Links
import ResourceTypes.Proofs.Build.Locations
import ResourceTypes.Proofs.Build.Registers
import ResourceTypes.Proofs.Schema.Reached

/-! # What attributes contribute

A reached attribute contributes fields to the two types of its level.  Which ones is decided by
the attribute, its path, the configuration, and the type names of the resource to which it leads:
a `Contribution` holds these, and `Contribution.fieldsOf` are the fields for one of the two
types.  `Contribution.documentation` has the lines that document each of them as well.

The fields of a level are those of its attributes in order (`FilledLevel`), and the attributes of
all levels are those that are reached (`Walk.fills`, `Built.filled`), so that no field of an output
has another origin.  Nor has any entry of its documentation (`Built.documented`). -/

namespace ResourceTypes

open Build

/-! ### Contributions -/

/-- A reached attribute with all that decides which fields it contributes. -/
structure Contribution (config : Config) where
  reached : Reached
  comment : Comment
  parsed : Comment.parse reached.attr.traits.description = .ok comment
  /-- The type names of the resource to which the attribute leads. -/
  names : Option TypeNames
  leads : names.isSome = reached.attr.nested?.isSome

namespace Contribution

variable {config : Config}

/-- The site of the attribute. -/
def site (c : Contribution config) : Site :=
  .ofAttribute config (.ofSnake c.reached.name) (.ofPath config.kind c.reached.path)
    c.reached.attr.traits c.comment

/-- The variants of the attribute. -/
def variants (c : Contribution config) : List Variant := c.reached.attr.variants c.names

/-- The fields for what is observed, or for what can be set. -/
def fieldsOf (c : Contribution config) (observed : Bool) : List Field :=
  c.variants.flatMap fun v =>
    if observed then c.site.observationFields v else c.site.parameterFields v

/-- The lines of the description that are text. -/
def text (c : Contribution config) : List String := Comment.text c.reached.attr.traits.description

/-- The fields with the lines that document them. -/
def documentation (c : Contribution config) (observed : Bool) : List (Field × List String) :=
  c.variants.flatMap (c.site.documentation c.text observed)

/-- What the attribute documents in the types of its level. -/
def entries (c : Contribution config) (n : TypeNames) : List ((String × String) × String) :=
  c.variants.flatMap (c.site.commentEntries c.text n)

theorem map_fst_documentation (c : Contribution config) (observed : Bool) :
    (c.documentation observed).map Prod.fst = c.fieldsOf observed := by
  simp only [documentation, fieldsOf, List.map_flatMap, Site.map_fst_documentation]

theorem entries_perm (c : Contribution config) (n : TypeNames) :
    (c.entries n).Perm
      ((c.documentation true).map (Site.entry n.observation) ++
        (c.documentation false).map (Site.entry n.parameters)) := by
  unfold entries documentation
  rw [List.map_flatMap, List.map_flatMap]
  exact (List.flatMap_append_perm c.variants _ _).symm

end Contribution

theorem Level.fieldsOf_extend (l : Level) (parameters observation : List Field) (observed : Bool) :
    (l.extend parameters observation).fieldsOf observed =
      l.fieldsOf observed ++ if observed then observation else parameters := by
  cases observed <;> rfl

theorem Contribution.fieldsOf_placed {config : Config} {c : Contribution config} {s t : BuildState}
    {level level' : Level} (hc : s.config.references = config.references)
    (h : Returns (placeVariants
      (.ofAttribute s.config (.ofSnake c.reached.name) (.ofPath config.kind c.reached.path)
        c.reached.attr.traits c.comment) c.variants level) s level' t) (observed : Bool) :
    level'.fieldsOf observed = level.fieldsOf observed ++ c.fieldsOf observed := by
  rw [Site.ofAttribute_congr hc] at h
  obtain ⟨rfl, -⟩ := returns_placeVariants h
  rw [Level.fieldsOf_extend]
  cases observed <;> rfl

theorem Contribution.documents_placed {config : Config} {c : Contribution config}
    {s t : BuildState} {level level' : Level} (hc : s.config.references = config.references)
    (h : Returns (placeVariants
      (.ofAttribute s.config (.ofSnake c.reached.name) (.ofPath config.kind c.reached.path)
        c.reached.attr.traits c.comment) c.variants level) s level' t) :
    level'.typeNames = level.typeNames ∧ Documents (c.entries level.typeNames) s t := by
  rw [Site.ofAttribute_congr hc] at h
  have hdocuments := documents_placeVariants (Comment.plain_of_parse c.parsed) h
  obtain ⟨rfl, -⟩ := returns_placeVariants h
  exact ⟨rfl, hdocuments⟩

/-! ### Levels of contributions -/

/-- A level with the contributions of its attributes, which fill its two types. -/
structure FilledLevel (config : Config) where
  built : BuiltLevel
  contributions : List (Contribution config)
  location : ∀ c ∈ contributions, built.location = .ofPath config.kind c.reached.level
  fields : ∀ observed,
    built.level.fieldsOf observed = contributions.flatMap fun c => c.fieldsOf observed

namespace FilledLevel

variable {config : Config} (b : FilledLevel config)

/-- The fields of one of the two types with the lines that document them. -/
def documentation (observed : Bool) : List (Field × List String) :=
  b.contributions.flatMap fun c => c.documentation observed

/-- What is documented in the two types. -/
def entries : List ((String × String) × String) :=
  b.contributions.flatMap fun c => c.entries b.built.names

theorem map_fst_documentation (observed : Bool) :
    (b.documentation observed).map Prod.fst = (b.built.typeOf observed).fields := by
  rw [show (b.built.typeOf observed).fields = _ from b.fields observed, documentation,
    List.map_flatMap]
  simp only [Contribution.map_fst_documentation]

theorem entries_perm :
    b.entries.Perm
      ((b.documentation true).map (Site.entry b.built.names.observation) ++
        (b.documentation false).map (Site.entry b.built.names.parameters)) := by
  unfold entries documentation
  rw [List.map_flatMap, List.map_flatMap]
  refine (List.Perm.flatMap_left _ fun c _ => c.entries_perm b.built.names).trans ?_
  exact (List.flatMap_append_perm b.contributions _ _).symm

end FilledLevel

/-- The contributions to all levels. -/
def contributionsOf {config : Config} (levels : Forest (FilledLevel config)) :
    List (Contribution config) :=
  levels.preorder.flatMap FilledLevel.contributions

@[simp] theorem contributionsOf_nil {config : Config} :
    contributionsOf (.nil : Forest (FilledLevel config)) = [] := rfl

@[simp] theorem contributionsOf_node {config : Config} (b : FilledLevel config)
    (below beside : Forest (FilledLevel config)) :
    contributionsOf (.node b below beside) =
      b.contributions ++ (contributionsOf below ++ contributionsOf beside) := by
  simp [contributionsOf, Forest.preorder]

/-- What is documented in all levels. -/
def entriesOf {config : Config} (levels : Forest (FilledLevel config)) :
    List ((String × String) × String) :=
  levels.preorder.flatMap FilledLevel.entries

@[simp] theorem entriesOf_nil {config : Config} :
    entriesOf (.nil : Forest (FilledLevel config)) = [] := rfl

@[simp] theorem entriesOf_node {config : Config} (b : FilledLevel config)
    (below beside : Forest (FilledLevel config)) :
    entriesOf (.node b below beside) = b.entries ++ (entriesOf below ++ entriesOf beside) := by
  simp [entriesOf, Forest.preorder]

theorem fieldsOf_openLevel {l : Location} {level : Level} {s t : BuildState}
    (h : Returns (openLevel l) s level t) (observed : Bool) : level.fieldsOf observed = [] := by
  obtain ⟨n, u, -, rfl, -⟩ := returns_openLevel.mp h
  cases observed <;> rfl

/-! ### Filling levels -/

/-- The visit of the reached attributes at a path fills its level with the contributions `own`, and
the levels that it builds with those of `filled`.  Their documentation is all that is put in. -/
structure Fills (config : Config) (p : FieldPath) (rs : List Reached) (level level' : Level)
    (s t : BuildState) (own : List (Contribution config)) (filled : Forest (FilledLevel config)) :
    Prop where
  places : ∀ c ∈ own, c.reached.level = p
  names : level'.typeNames = level.typeNames
  fields : ∀ observed, level'.fieldsOf observed =
    level.fieldsOf observed ++ own.flatMap fun c => c.fieldsOf observed
  reached : ((own ++ contributionsOf filled).map Contribution.reached).Perm rs
  documents : ∃ entries, Documents entries s t ∧ ∀ e, e ∈ entries ↔
    e ∈ (own.flatMap fun c => c.entries level.typeNames) ++ entriesOf filled

section fills

variable {config : Config} {p q : FieldPath} {rs rs' : List Reached}
  {level level₁ level₂ : Level} {s s₁ s₂ s₃ : BuildState} {own own' : List (Contribution config)}
  {filled below : Forest (FilledLevel config)}

/-- The level of a resource, opened and filled. -/
def FilledLevel.ofFills (b : BuiltLevel) {l : Location} {opened : Level}
    (opens : Returns (openLevel l) s opened s₁)
    (fills : Fills config p rs opened b.level s₁ s₂ own filled)
    (location : b.location = .ofPath config.kind p) : FilledLevel config where
  built := b
  contributions := own
  location c hc := by rw [fills.places c hc, location]
  fields observed := by
    rw [fills.fields, fieldsOf_openLevel opens, List.nil_append]

/-- A resource that is filled documents its own contributions and those below it. -/
theorem FilledLevel.documents_ofFills {b : BuiltLevel} {l : Location} {opened : Level}
    {refs : TypeRef × TypeRef} (opens : Returns (openLevel l) s opened s₁)
    (fills : Fills config p rs opened b.level s₁ s₂ own filled)
    (location : b.location = .ofPath config.kind p)
    (closes : Returns (closeLevel l b.level) s₂ refs s₃) :
    ∃ entries, Documents entries s s₃ ∧ ∀ e, e ∈ entries ↔
      e ∈ (FilledLevel.ofFills b opens fills location).entries ++ entriesOf filled := by
  obtain ⟨entries, hdocuments, hentries⟩ := fills.documents
  refine ⟨_, ((documents_openLevel opens).trans hdocuments).trans (documents_closeLevel closes),
    fun e => ?_⟩
  have hown : (FilledLevel.ofFills b opens fills location).entries =
      own.flatMap fun c => c.entries opened.typeNames := by
    rw [← fills.names]
    rfl
  rw [hown, List.nil_append, List.append_nil, hentries]

namespace Fills

theorem nil (level : Level) (s : BuildState) : Fills config p [] level level s s [] .nil :=
  ⟨by simp, rfl, by simp, by simp, [], rfl, by simp⟩

variable (first : Contribution config)
  (placed : Returns (placeVariants
    (.ofAttribute s₁.config (.ofSnake first.reached.name) (.ofPath config.kind first.reached.path)
      first.reached.attr.traits first.comment) first.variants level) s₁ level₁ s₂)
  (references : s₁.config.references = config.references)
  (others : Fills config first.reached.level rs level₁ level₂ s₂ s₃ own filled)

include placed references others

theorem fields_cons (observed : Bool) : level₂.fieldsOf observed =
    level.fieldsOf observed ++ (first :: own).flatMap fun c => c.fieldsOf observed := by
  rw [others.fields, first.fieldsOf_placed references placed, List.flatMap_cons, List.append_assoc]

theorem flat (before : Documents [] s s₁) :
    Fills config first.reached.level (first.reached :: rs) level level₂ s s₃ (first :: own)
      filled := by
  obtain ⟨hnames, hfirst⟩ := first.documents_placed references placed
  obtain ⟨entries, hdocuments, hentries⟩ := others.documents
  refine ⟨List.forall_mem_cons.mpr ⟨rfl, others.places⟩, others.names.trans hnames,
    others.fields_cons first placed references, others.reached.cons _, _,
    (before.trans hfirst).trans hdocuments, fun e => ?_⟩
  simp only [List.nil_append, List.flatMap_cons, List.append_assoc, List.mem_append, hentries,
    hnames]

theorem nested {inside : FilledLevel config}
    (before : ∃ entries, Documents entries s s₁ ∧ ∀ e, e ∈ entries ↔
      e ∈ inside.entries ++ entriesOf below)
    (inner : ((inside.contributions ++ contributionsOf below).map Contribution.reached).Perm rs') :
    Fills config first.reached.level (first.reached :: (rs' ++ rs)) level level₂ s s₃
      (first :: own) (.node inside below filled) := by
  obtain ⟨hnames, hfirst⟩ := first.documents_placed references placed
  obtain ⟨entriesb, hdocumentsb, hentriesb⟩ := before
  obtain ⟨entries, hdocuments, hentries⟩ := others.documents
  refine ⟨List.forall_mem_cons.mpr ⟨rfl, others.places⟩, others.names.trans hnames,
    others.fields_cons first placed references, ?_, _, (hdocumentsb.trans hfirst).trans hdocuments,
    fun e => ?_⟩
  · rw [contributionsOf_node, List.cons_append, List.map_cons]
    refine List.Perm.cons _ ?_
    -- The contributions to the level stand before those to the levels below it.
    have hsplit := List.perm_append_comm_assoc own
      (inside.contributions ++ contributionsOf below) (contributionsOf filled)
    rw [List.append_assoc] at hsplit
    refine (hsplit.map Contribution.reached).trans ?_
    rw [List.map_append]
    exact inner.append others.reached
  · rw [entriesOf_node, List.flatMap_cons]
    simp only [List.mem_append, hentriesb, hentries, hnames]
    tauto

end Fills

end fills

/-- The attributes of a walk contribute to its level, and those of the nested resources to the
levels that it builds. -/
theorem Walk.fills {attributes : List (String × Attribute)} {l : Location} {level level' : Level}
    {s t : BuildState} {levels : Forest BuiltLevel} {config : Config}
    (h : Walk attributes l level s levels level' t) (p : FieldPath) (above : List Attribute)
    (hl : l = .ofPath config.kind p) (hc : s.config.references = config.references) :
    ∃ own filled, filled.map FilledLevel.built = levels ∧
      Fills config p (reachedIn attributes p above) level level' s t own filled := by
  induction h generalizing p above with
  | nil => exact ⟨[], .nil, rfl, .nil _ _⟩
  | @flat name a _ _ _ _ _ _ _ _ _ comment _ leads parsed registered placed _ ih =>
      subst hl
      rw [Location.field_ofPath] at registered placed
      have hc₁ := (registers_registerIgnored registered).references.trans hc
      have hc₂ := (registers_placeVariants placed).references.trans hc₁
      obtain ⟨own, levels, hbuilt, others⟩ := ih p above rfl hc₂
      let first : Contribution config :=
        ⟨⟨p, above, name, a⟩, comment, parsed, none, by rw [leads]; rfl⟩
      rw [reachedIn_cons_flat _ p above leads]
      exact ⟨first :: own, levels, hbuilt,
        others.flat first placed hc₁ (documents_registerIgnored registered)⟩
  | @nested name a inner _ _ opened filled _ _ _ _ _ _ _ _ _ _ _ comment _ _ leads parsed
      registered opens visits closes placed _ ihb iho =>
      subst hl
      rw [Location.field_ofPath] at registered opens closes placed
      have hc₁ := (registers_registerIgnored registered).references.trans hc
      have hc₂ := (registers_openLevel opens).references.trans hc₁
      have hc₃ := visits.references.trans hc₂
      have hc₄ := (registers_closeLevel closes).references.trans hc₃
      have hc₅ := (registers_placeVariants placed).references.trans hc₄
      obtain ⟨ownBelow, below, rfl, inside⟩ :=
        ihb ((p.child name).inside a) (above ++ [a]) (by simp) hc₂
      obtain ⟨own, beside, rfl, others⟩ := iho p above rfl hc₅
      let first : Contribution config :=
        ⟨⟨p, above, name, a⟩, comment, parsed, some filled.typeNames, by rw [leads]; rfl⟩
      let b : BuiltLevel :=
        ⟨some (name, a), ((Location.ofPath config.kind p).field (.ofSnake name)).inside a, filled⟩
      have hb : b.location = .ofPath config.kind ((p.child name).inside a) := by simp [b]
      obtain ⟨entries, hdocuments, hentries⟩ :=
        FilledLevel.documents_ofFills (b := b) opens inside hb closes
      rw [reachedIn_cons_nested _ p above leads]
      exact ⟨first :: own, .node (.ofFills b opens inside hb) below beside, rfl,
        others.nested first placed hc₄
          ⟨_, (documents_registerIgnored registered).trans hdocuments, hentries⟩ inside.reached⟩

/-- The levels of a build are filled by the contributions of the attributes that it reaches, and its
documentation is what these document. -/
theorem Built.documented {schema : Resource} {config : Config} {symbols : SymbolTable}
    {g : Generated} {levels : Forest BuiltLevel} (h : Built schema config symbols g levels) :
    ∃ filled : Forest (FilledLevel config), filled.map FilledLevel.built = levels ∧
      ((contributionsOf filled).map Contribution.reached).Perm schema.reached ∧
      ∃ entries, g.comments = OrderedMap.empty.insertAll entries ∧
        ∀ e, e ∈ entries ↔ e ∈ entriesOf filled := by
  obtain @⟨opened, filled, _, _, _, _, _, opens, visits, closes, result⟩ := h
  have hroot := Location.root_eq_ofPath config.kind
  obtain ⟨own, below, rfl, fills⟩ :=
    visits.fills .root [] hroot (registers_openLevel opens).references
  let b : BuiltLevel := ⟨none, .root config.kind, filled⟩
  obtain ⟨entries, hdocuments, hentries⟩ :=
    FilledLevel.documents_ofFills (b := b) opens fills hroot closes
  refine ⟨.node (.ofFills b opens fills hroot) below .nil, rfl, ?_, entries,
    by rw [result]; exact hdocuments, fun e => ?_⟩
  · obtain ⟨attributes⟩ := schema
    rw [contributionsOf_node, contributionsOf_nil, List.append_nil, Resource.reached,
      Resource.reachedFrom]
    exact fills.reached
  · rw [entriesOf_node, entriesOf_nil, List.append_nil, hentries]

theorem Built.filled {schema : Resource} {config : Config} {symbols : SymbolTable} {g : Generated}
    {levels : Forest BuiltLevel} (h : Built schema config symbols g levels) :
    ∃ filled : Forest (FilledLevel config), filled.map FilledLevel.built = levels ∧
      ((contributionsOf filled).map Contribution.reached).Perm schema.reached := by
  obtain ⟨filled, hbuilt, hperm, -⟩ := h.documented
  exact ⟨filled, hbuilt, hperm⟩

end ResourceTypes
