import Mathlib.Data.List.Chain
import Mathlib.Data.List.Nodup
import ResourceTypes.Proofs.Build.Failures

/-! # The trail of an error

`Stops` says where a visit stops, without looking at the error that it raises: it goes along the
attributes that were visited before, down through the levels that were entered, to the attribute
at which something is refused.  The attributes of the levels on that way are its trail, the
innermost one last.  `Stopped` does the same for a whole schema.

A visit fails exactly when it stops, and the trail of its error are the paths of the attributes on
the way (`stops_of_fails`, `fails_of_stops`); each path continues the one before by wildcards and
a name (`Reached.Encloses.extends`), so that no path occurs twice. -/

namespace ResourceTypes

open Build

/-! ### Where a build stops -/

/-- The resource at a path is refused at its entry: it is too deep, or no name is free. -/
inductive Refused (kind : String) (p : FieldPath) (s : BuildState) : BuildError → Prop
  | deep (deep : maxDepth ≤ p.depth) : Refused kind p s (.depthLimit maxDepth)
  | exhausted {name : String}
      (taken : s.symbols.nameLevel (Location.ofPath kind p).names = .error (.exhausted name)) :
      Refused kind p s (.nameExhausted name)

/-- A visit of attributes stops for a cause, below or at the last attribute of a trail. -/
inductive Stops (kind : String) : List (String × Attribute) → FieldPath → List Attribute → Level →
    BuildState → List Reached → BuildError → Prop
  | directive {name : String} {a : Attribute} {rest : List (String × Attribute)} {p : FieldPath}
      {above : List Attribute} {level : Level} {s : BuildState} {cause : DirectiveError}
      (malformed : Comment.parse a.traits.description = .error cause) :
      Stops kind ((name, a) :: rest) p above level s [⟨p, above, name, a⟩]
        (.comment a.traits.description cause)
  | node {name : String} {a : Attribute} {rest : List (String × Attribute)} {p : FieldPath}
      {above : List Attribute} {level : Level} {s s₁ : BuildState} {comment : Comment}
      {v : FieldPath × Attribute} {cause : BuildError}
      (parsed : Comment.parse a.traits.description = .ok comment)
      (registered : Returns (registerIgnored (.ofPath kind (p.child name))) s () s₁)
      (mem : v ∈ a.nodes (p.child name)) (fault : NodeFault kind v cause) :
      Stops kind ((name, a) :: rest) p above level s [⟨p, above, name, a⟩] cause
  | entry {name : String} {a : Attribute} {inner : Resource} {rest : List (String × Attribute)}
      {p : FieldPath} {above : List Attribute} {level : Level} {s s₁ : BuildState}
      {comment : Comment} {cause : BuildError}
      (parsed : Comment.parse a.traits.description = .ok comment)
      (registered : Returns (registerIgnored (.ofPath kind (p.child name))) s () s₁)
      (sound : SoundNodes kind (a.nodes (p.child name)))
      (leads : a.nested? = some inner)
      (refused : Refused kind ((p.child name).inside a) s₁ cause) :
      Stops kind ((name, a) :: rest) p above level s [⟨p, above, name, a⟩] cause
  | inside {name : String} {a : Attribute} {inner rest : List (String × Attribute)}
      {p : FieldPath} {above : List Attribute} {level opened : Level} {s s₁ s₂ : BuildState}
      {comment : Comment} {trail : List Reached} {cause : BuildError}
      (parsed : Comment.parse a.traits.description = .ok comment)
      (registered : Returns (registerIgnored (.ofPath kind (p.child name))) s () s₁)
      (sound : SoundNodes kind (a.nodes (p.child name)))
      (leads : a.nested? = some (.mk inner))
      (shallow : ((p.child name).inside a).depth < maxDepth)
      (opens : Returns (openLevel (.ofPath kind ((p.child name).inside a))) s₁ opened s₂)
      (stops : Stops kind inner ((p.child name).inside a) (above ++ [a]) opened s₂ trail cause) :
      Stops kind ((name, a) :: rest) p above level s (⟨p, above, name, a⟩ :: trail) cause
  | placing {name : String} {a : Attribute} {rest : List (String × Attribute)} {p : FieldPath}
      {above : List Attribute} {level : Level} {s s₁ s₂ : BuildState} {comment : Comment}
      {variants : List Variant} {v : Variant}
      (parsed : Comment.parse a.traits.description = .ok comment)
      (registered : Returns (registerIgnored (.ofPath kind (p.child name))) s () s₁)
      (resolved : Returns (schema a (.ofPath kind (p.child name)) p.depth) s₁ variants s₂)
      (mem : v ∈ variants)
      (exposes : (Site.ofAttribute s₂.config (.ofSnake name) (.ofPath kind (p.child name)) a.traits
        comment).Exposes v) :
      Stops kind ((name, a) :: rest) p above level s [⟨p, above, name, a⟩]
        (.invalidSensitiveType v.type (FieldName.ofSnake name).camel)
  | later {name : String} {a : Attribute} {rest : List (String × Attribute)} {p : FieldPath}
      {above : List Attribute} {level level' : Level} {s t : BuildState} {trail : List Reached}
      {cause : BuildError}
      (visited : Returns (fields [(name, a)] (.ofPath kind p) p.depth level) s level' t)
      (stops : Stops kind rest p above level' t trail cause) :
      Stops kind ((name, a) :: rest) p above level s trail cause

/-- The build of a schema stops for a cause, at its entry with an empty trail or inside. -/
inductive Stopped (schema : Resource) (config : Config) (symbols : SymbolTable) :
    List Reached → BuildError → Prop
  | entry {cause : BuildError} (refused : Refused config.kind .root { symbols, config } cause) :
      Stopped schema config symbols [] cause
  | inside {opened : Level} {s : BuildState} {trail : List Reached} {cause : BuildError}
      (opens : Returns (openLevel (.root config.kind)) { symbols, config } opened s)
      (stops : Stops config.kind schema.attributes .root [] opened s trail cause) :
      Stopped schema config symbols trail cause

/-! ### Every failure is a stop -/

section failures

variable {kind : String} {s : BuildState} {e : BuildError}

/-- A resource is refused at its entry, with no field in the steps around the error, or the visit
of its attributes fails. -/
theorem fails_resource {attributes : List (String × Attribute)} {p : FieldPath}
    (h : Fails (resource (.mk attributes) (.ofPath kind p) p.depth) s e) :
    Refused kind p s e.rootCause ∧ e.trail = [] ∨
      p.depth < maxDepth ∧ ∃ opened t, Returns (openLevel (.ofPath kind p)) s opened t ∧
        Fails (fields attributes (.ofPath kind p) p.depth opened) t e := by
  rw [resource] at h
  split at h
  next hd =>
    obtain rfl := fails_throw.mp h
    exact .inl ⟨.deep hd, rfl⟩
  next hd =>
    obtain h | ⟨opened, t, hopened, h⟩ := fails_bind.mp h
    · obtain ⟨name, taken, hroot, htrail⟩ := fails_openLevel (List.cons_ne_nil _ _) h
      rw [hroot]
      exact .inl ⟨.exhausted taken, htrail⟩
    obtain h | ⟨filled, u, -, h⟩ := fails_bind.mp h
    · exact .inr ⟨Nat.lt_of_not_le hd, opened, t, hopened, h⟩
    · exact absurd h (not_fails_of_settles settles_closeLevel)

/-- The first attribute of a visit stops it, given that a visit of the resource to which it leads
stops wherever it fails. -/
theorem stops_first {name : String} {a : Attribute} {rest : List (String × Attribute)}
    {p : FieldPath} {above : List Attribute} {level : Level}
    (below : ∀ inner, a.nested? = some (.mk inner) → ∀ opened s e,
      Fails (fields inner (.ofPath kind ((p.child name).inside a)) ((p.child name).inside a).depth
        opened) s e →
      ∃ trail,
        Stops kind inner ((p.child name).inside a) (above ++ [a]) opened s trail e.rootCause ∧
        e.trail = trail.map Reached.path)
    (h : Fails (fields [(name, a)] (.ofPath kind p) p.depth level) s e) :
    ∃ trail, Stops kind ((name, a) :: rest) p above level s trail e.rootCause ∧
      e.trail = trail.map Reached.path := by
  obtain ⟨cause, hmalformed, rfl⟩ | ⟨comment, s₁, hparsed, hregistered, h⟩ := fails_first h
  · refine ⟨_, .directive hmalformed, ?_⟩
    rw [Location.field_ofPath]
    rfl
  rw [Location.field_ofPath] at hregistered h
  obtain ⟨e', hschema, rfl⟩ | ⟨variants, s₂, e', hresolved, hplace, rfl⟩ := h
  · rw [← p.depth_child name] at hschema
    rw [BuildError.trail_context, BuildError.rootCause_context]
    obtain ⟨⟨v, hv, fault⟩, htrail⟩ | ⟨sound, ⟨inner⟩, e'', leads, hresource, hroot, htrail⟩ :=
      fails_schema hschema
    · refine ⟨_, .node hparsed hregistered hv fault, ?_⟩
      rw [htrail]
      rfl
    rw [hroot, htrail]
    obtain ⟨refused, htrail⟩ | ⟨shallow, opened, s₂, hopened, hfields⟩ := fails_resource hresource
    · refine ⟨_, .entry hparsed hregistered sound leads refused, ?_⟩
      rw [htrail]
      rfl
    · obtain ⟨trail, hstops, htrail⟩ := below inner leads opened s₂ e'' hfields
      refine ⟨_, .inside hparsed hregistered sound leads shallow hopened hstops, ?_⟩
      rw [htrail]
      rfl
  · obtain ⟨v, hv, exposes, rfl⟩ := fails_placeVariants hplace
    exact ⟨_, .placing hparsed hregistered hresolved hv exposes, rfl⟩

/-- A visit that fails stops, and the trail of its error names the attributes on the way. -/
theorem stops_of_fails {attributes : List (String × Attribute)} {p : FieldPath}
    {above : List Attribute} {level : Level}
    (h : Fails (fields attributes (.ofPath kind p) p.depth level) s e) :
    ∃ trail, Stops kind attributes p above level s trail e.rootCause ∧
      e.trail = trail.map Reached.path := by
  induction attributes using Resource.attributes_induction generalizing p above level s e with
  | nil =>
      rw [fields] at h
      exact absurd h not_fails_pure
  | flat name a rest ha ih =>
      rw [fields_cons] at h
      obtain h | ⟨level', t, hvisited, h⟩ := fails_bind.mp h
      · exact stops_first (by simp [ha]) h
      · obtain ⟨trail, hstops, htrail⟩ := ih h
        exact ⟨trail, .later hvisited hstops, htrail⟩
  | nested name a inner rest ha ihi ihr =>
      rw [fields_cons] at h
      obtain h | ⟨level', t, hvisited, h⟩ := fails_bind.mp h
      · refine stops_first (fun inner' hinner opened s' e' h' => ?_) h
        rw [ha] at hinner
        cases hinner
        exact ihi h'
      · obtain ⟨trail, hstops, htrail⟩ := ihr h
        exact ⟨trail, .later hvisited hstops, htrail⟩

end failures

/-! ### Every stop is a failure -/

section stops

variable {kind : String} {s : BuildState}

theorem Refused.not_opened {p : FieldPath} {cause : BuildError} (h : Refused kind p s cause)
    (shallow : p.depth < maxDepth) {opened : Level} {t : BuildState} :
    ¬ Returns (openLevel (.ofPath kind p)) s opened t := by
  intro hopened
  cases h with
  | deep hd => exact absurd shallow (Nat.not_lt_of_le hd)
  | exhausted taken =>
      obtain ⟨n, u, hn, -⟩ := returns_openLevel.mp hopened
      rw [taken] at hn
      cases hn

theorem Refused.not_returns {p : FieldPath} {cause : BuildError} (h : Refused kind p s cause)
    {r : Resource} {refs : TypeRef × TypeRef} {t : BuildState} :
    ¬ Returns (resource r (.ofPath kind p) p.depth) s refs t := by
  intro hr
  obtain ⟨attributes⟩ := r
  by_cases hd : maxDepth ≤ p.depth
  · rw [resource, if_pos hd] at hr
    exact not_returns_throw hr
  · obtain ⟨opened, filled, u, v, hopened, -, -⟩ := returns_resource hr
    exact h.not_opened (Nat.lt_of_not_le hd) hopened

theorem not_returns_resource {attributes : List (String × Attribute)} {l : Location} {depth : Nat}
    {opened : Level} {u : BuildState} {e : BuildError} (opens : Returns (openLevel l) s opened u)
    (fails : Fails (fields attributes l depth opened) u e) {refs : TypeRef × TypeRef}
    {t : BuildState} : ¬ Returns (resource (.mk attributes) l depth) s refs t := by
  intro hr
  -- The level is opened in one way only, so that the visit of its attributes is this one.
  obtain ⟨opened', filled, v, w, hopened, hfilled, -⟩ := returns_resource hr
  obtain ⟨rfl, rfl⟩ := hopened.unique opens
  exact hfilled.not_fails fails

theorem not_returns_schema_of_fault {a : Attribute} {p : FieldPath} {v : FieldPath × Attribute}
    {cause : BuildError} (mem : v ∈ a.nodes p) (fault : NodeFault kind v cause)
    {variants : List Variant} {t : BuildState} :
    ¬ Returns (schema a (.ofPath kind p) p.depth) s variants t := by
  intro h
  have settles : Settles (schema a (.ofPath kind p) p.depth)
      (fun _ => SoundNodes kind (a.nodes p) ∧ (a.nested?.isSome = true → True)) fun _ => True :=
    settles_schema (fun _ _ _ _ => trivial) fun r _ => fun s => by split <;> trivial
  have sound := (settles.of_returns h).1
  exact sound v mem cause fault

theorem not_returns_schema_of_nested {a : Attribute} {r : Resource} {p : FieldPath}
    (leads : a.nested? = some r)
    (unbuilt : ∀ refs t,
      ¬ Returns (resource r (.ofPath kind (p.inside a)) (p.inside a).depth) s refs t)
    {variants : List Variant} {t : BuildState} :
    ¬ Returns (schema a (.ofPath kind p) p.depth) s variants t := by
  intro h
  obtain ⟨refs, hr, -⟩ := returns_schema_of_nested leads h
  rw [Location.inside_ofPath, ← FieldPath.depth_inside] at hr
  exact unbuilt refs t hr

theorem fails_schema_of_nested {a : Attribute} {r : Resource} {p : FieldPath}
    (sound : SoundNodes kind (a.nodes p)) (leads : a.nested? = some r)
    (unbuilt : ∀ refs t,
      ¬ Returns (resource r (.ofPath kind (p.inside a)) (p.inside a).depth) s refs t) :
    ∃ e e', Fails (schema a (.ofPath kind p) p.depth) s e ∧
      Fails (resource r (.ofPath kind (p.inside a)) (p.inside a).depth) s e' ∧
      e.trail = e'.trail := by
  obtain ⟨e, he⟩ := exists_fails fun _ _ => not_returns_schema_of_nested leads unbuilt
  obtain ⟨⟨v, hv, fault⟩, -⟩ | ⟨-, r', e', leads', hr, -, htrail⟩ := fails_schema he
  · exact absurd fault (sound v hv _)
  · rw [leads] at leads'
    cases leads'
    exact ⟨e, e', he, hr, htrail⟩

theorem fails_fields_of_schema {name : String} {a : Attribute} {rest : List (String × Attribute)}
    {p : FieldPath} {level : Level} {s₁ : BuildState} {comment : Comment} {e : BuildError}
    (parsed : Comment.parse a.traits.description = .ok comment)
    (registered : Returns (registerIgnored (.ofPath kind (p.child name))) s () s₁)
    (fails : Fails (schema a (.ofPath kind (p.child name)) (p.child name).depth) s₁ e) :
    Fails (fields ((name, a) :: rest) (.ofPath kind p) p.depth level) s
      (.context (.fieldType (p.child name)) e) := by
  rw [fields, Location.field_ofPath, ← p.depth_child name]
  refine fails_bind.mpr (.inr ⟨comment, s, returns_commentOf.mpr ⟨parsed, rfl⟩, ?_⟩)
  refine fails_bind.mpr (.inr ⟨(), s₁, registered, ?_⟩)
  exact fails_bind.mpr (.inl (fails_within.mpr ⟨e, fails, rfl⟩))

theorem fails_of_directive {name : String} {a : Attribute} {rest : List (String × Attribute)}
    {p : FieldPath} {level : Level} {cause : DirectiveError}
    (malformed : Comment.parse a.traits.description = .error cause) :
    Fails (fields ((name, a) :: rest) (.ofPath kind p) p.depth level) s
      (.context (.field (p.child name)) (.comment a.traits.description cause)) := by
  rw [fields, Location.field_ofPath]
  refine fails_bind.mpr (.inl ?_)
  rw [commentOf, malformed]
  exact fails_throw.mpr rfl

theorem fails_of_node {name : String} {a : Attribute} {rest : List (String × Attribute)}
    {p : FieldPath} {level : Level} {s₁ : BuildState} {comment : Comment}
    {v : FieldPath × Attribute} {cause : BuildError}
    (parsed : Comment.parse a.traits.description = .ok comment)
    (registered : Returns (registerIgnored (.ofPath kind (p.child name))) s () s₁)
    (mem : v ∈ a.nodes (p.child name)) (fault : NodeFault kind v cause) :
    ∃ e, Fails (fields ((name, a) :: rest) (.ofPath kind p) p.depth level) s e ∧
      e.trail = [p.child name] := by
  obtain ⟨e, he⟩ := exists_fails fun _ _ => not_returns_schema_of_fault (s := s₁) mem fault
  refine ⟨_, fails_fields_of_schema parsed registered he, ?_⟩
  rw [BuildError.trail_context]
  obtain ⟨-, htrail⟩ | ⟨sound, -⟩ := fails_schema he
  · rw [htrail]
    rfl
  · exact absurd fault (sound v mem cause)

theorem fails_of_entry {name : String} {a : Attribute} {inner : Resource}
    {rest : List (String × Attribute)} {p : FieldPath} {level : Level} {s₁ : BuildState}
    {comment : Comment} {cause : BuildError}
    (parsed : Comment.parse a.traits.description = .ok comment)
    (registered : Returns (registerIgnored (.ofPath kind (p.child name))) s () s₁)
    (sound : SoundNodes kind (a.nodes (p.child name))) (leads : a.nested? = some inner)
    (refused : Refused kind ((p.child name).inside a) s₁ cause) :
    ∃ e, Fails (fields ((name, a) :: rest) (.ofPath kind p) p.depth level) s e ∧
      e.trail = [p.child name] := by
  obtain ⟨e, e', he, hr, htrail⟩ :=
    fails_schema_of_nested sound leads fun _ _ => refused.not_returns
  refine ⟨_, fails_fields_of_schema parsed registered he, ?_⟩
  rw [BuildError.trail_context, htrail]
  obtain ⟨attributes⟩ := inner
  obtain ⟨-, htrail⟩ | ⟨shallow, opened, t, hopened, -⟩ := fails_resource hr
  · rw [htrail]
    rfl
  · exact absurd hopened (refused.not_opened shallow)

/-- A failure of the visit inside the resource to which the first attribute leads stops the visit,
and the path of the attribute comes before the trail of that failure. -/
theorem fails_of_inside {name : String} {a : Attribute} {inner rest : List (String × Attribute)}
    {p : FieldPath} {level opened : Level} {s₁ s₂ : BuildState} {comment : Comment}
    {e₀ : BuildError} (parsed : Comment.parse a.traits.description = .ok comment)
    (registered : Returns (registerIgnored (.ofPath kind (p.child name))) s () s₁)
    (sound : SoundNodes kind (a.nodes (p.child name))) (leads : a.nested? = some (.mk inner))
    (shallow : ((p.child name).inside a).depth < maxDepth)
    (opens : Returns (openLevel (.ofPath kind ((p.child name).inside a))) s₁ opened s₂)
    (fails : Fails (fields inner (.ofPath kind ((p.child name).inside a))
      ((p.child name).inside a).depth opened) s₂ e₀) :
    ∃ e, Fails (fields ((name, a) :: rest) (.ofPath kind p) p.depth level) s e ∧
      e.trail = p.child name :: e₀.trail := by
  obtain ⟨e, e', he, hr, htrail⟩ :=
    fails_schema_of_nested sound leads fun _ _ => not_returns_resource opens fails
  refine ⟨_, fails_fields_of_schema parsed registered he, ?_⟩
  rw [BuildError.trail_context, htrail]
  obtain ⟨refused, -⟩ | ⟨-, opened', t, hopened, hfails⟩ := fails_resource hr
  · exact absurd opens (refused.not_opened shallow)
  · obtain ⟨rfl, rfl⟩ := hopened.unique opens
    have same : e' = e₀ := Except.error.inj (hfails.symm.trans fails)
    rw [same]
    rfl

theorem fails_of_placing {name : String} {a : Attribute} {rest : List (String × Attribute)}
    {p : FieldPath} {level : Level} {s₁ s₂ : BuildState} {comment : Comment}
    {variants : List Variant} {v : Variant}
    (parsed : Comment.parse a.traits.description = .ok comment)
    (registered : Returns (registerIgnored (.ofPath kind (p.child name))) s () s₁)
    (resolved : Returns (schema a (.ofPath kind (p.child name)) p.depth) s₁ variants s₂)
    (mem : v ∈ variants)
    (exposes : (Site.ofAttribute s₂.config (.ofSnake name) (.ofPath kind (p.child name)) a.traits
      comment).Exposes v) :
    ∃ e, Fails (fields ((name, a) :: rest) (.ofPath kind p) p.depth level) s e ∧
      e.trail = [p.child name] := by
  obtain ⟨e, he⟩ := exists_fails fun _ _ => not_returns_placeVariants mem exposes
  refine ⟨.context (.field (p.child name)) e, ?_, ?_⟩
  · rw [fields, Location.field_ofPath]
    refine fails_bind.mpr (.inr ⟨comment, s, returns_commentOf.mpr ⟨parsed, rfl⟩, ?_⟩)
    refine fails_bind.mpr (.inr ⟨(), s₁, registered, ?_⟩)
    refine fails_bind.mpr (.inr ⟨variants, s₂, returns_within.mpr resolved, ?_⟩)
    refine fails_bind.mpr (.inr ⟨_, s₂, returns_siteOf.mpr ⟨rfl, rfl⟩, ?_⟩)
    exact fails_bind.mpr (.inl (fails_within.mpr ⟨e, he, rfl⟩))
  · obtain ⟨w, -, -, rfl⟩ := fails_placeVariants he
    rfl

/-- A visit that stops fails, and the trail of its error names the attributes on the way. -/
theorem fails_of_stops {attributes : List (String × Attribute)} {p : FieldPath}
    {above : List Attribute} {level : Level} {trail : List Reached} {cause : BuildError}
    (h : Stops kind attributes p above level s trail cause) :
    ∃ e, Fails (fields attributes (.ofPath kind p) p.depth level) s e ∧
      e.trail = trail.map Reached.path := by
  induction h with
  | directive malformed => exact ⟨_, fails_of_directive malformed, rfl⟩
  | node parsed registered mem fault => exact fails_of_node parsed registered mem fault
  | entry parsed registered sound leads refused =>
      exact fails_of_entry parsed registered sound leads refused
  | inside parsed registered sound leads shallow opens stops ih =>
      obtain ⟨e₀, hfields, htrail₀⟩ := ih
      rw [List.map_cons, ← htrail₀]
      exact fails_of_inside parsed registered sound leads shallow opens hfields
  | placing parsed registered resolved mem exposes =>
      exact fails_of_placing parsed registered resolved mem exposes
  | later visited stops ih =>
      obtain ⟨e, hfails, htrail⟩ := ih
      rw [fields_cons]
      exact ⟨e, fails_bind.mpr (.inr ⟨_, _, visited, hfails⟩), htrail⟩

end stops

/-! ### The attributes on the way -/

/-- The attribute `r'` is one of the resource to which `r` leads. -/
structure Reached.Encloses (r r' : Reached) : Prop where
  leads : ∃ inner, r.attr.nested? = some inner ∧ (r'.name, r'.attr) ∈ inner.attributes
  level : r'.level = r.path.inside r.attr
  above : r'.above = r.above ++ [r.attr]

/-- The second path continues the first with wildcards, one at least, and a name. -/
def FieldPath.Extends (p q : FieldPath) : Prop :=
  ∃ n name, q.segments = p.segments ++ List.replicate (n + 1) .wildcard ++ [.field name]

theorem Attribute.edges_pos : ∀ a : Attribute, 0 < a.edges
  | .mk _ .unset | .mk _ (.primitive _) | .mk _ (.resource _) => Nat.one_pos
  | .mk _ (.schema inner) => Nat.succ_pos inner.edges

theorem Reached.Encloses.extends {r r' : Reached} (h : r.Encloses r') : r.path.Extends r'.path := by
  obtain ⟨n, hn⟩ := Nat.exists_eq_succ_of_ne_zero (Nat.ne_of_gt r.attr.edges_pos)
  refine ⟨n, r'.name, ?_⟩
  rw [Reached.path, h.level, FieldPath.child, FieldPath.segments_inside, hn]

theorem nodup_of_extends {paths : List FieldPath} (h : paths.IsChain FieldPath.Extends) :
    paths.Nodup := by
  -- The paths become longer and longer.
  have longer : paths.IsChain fun p q => p.segments.length < q.segments.length := by
    refine h.imp fun p q hpq => ?_
    obtain ⟨n, name, hq⟩ := hpq
    rw [hq]
    simp only [List.length_append, List.length_replicate, List.length_singleton]
    omega
  have pairs : (paths.map fun p => p.segments.length).IsChain (· < ·) :=
    (List.isChain_map _).mpr longer
  have lengths : (paths.map fun p => p.segments.length).Nodup := pairs.pairwise.imp Nat.ne_of_lt
  exact lengths.of_map _

/-- A trail of a schema goes from an attribute of the root down, each time to an attribute of the
resource to which the one before leads. -/
structure IsTrail (schema : Resource) (trail : List Reached) : Prop where
  reached : ∀ r ∈ trail, r ∈ schema.reached
  starts : ∀ r ∈ trail.head?, r.level = .root ∧ r.above = [] ∧
    (r.name, r.attr) ∈ schema.attributes
  chain : trail.IsChain Reached.Encloses

namespace Stops

variable {kind : String} {attributes : List (String × Attribute)} {p : FieldPath}
  {above : List Attribute} {level : Level} {s : BuildState} {trail : List Reached}
  {cause : BuildError}

theorem reached (h : Stops kind attributes p above level s trail cause) :
    ∀ r ∈ trail, r ∈ reachedIn attributes p above := by
  induction h with
  | directive | node | entry | placing =>
      rw [reachedIn]
      simp
  | @inside name a inner rest p above _ _ _ _ _ _ trail _ _ _ _ leads _ _ _ ih =>
      rw [reachedIn_cons_nested rest p above leads]
      refine List.forall_mem_cons.mpr ⟨List.mem_cons_self, fun r hr => ?_⟩
      exact List.mem_cons_of_mem _ (List.mem_append_left _ (ih r hr))
  | later _ _ ih =>
      intro r hr
      rw [reachedIn]
      exact List.mem_cons_of_mem _ (List.mem_append_right _ (ih r hr))

theorem starts (h : Stops kind attributes p above level s trail cause) :
    ∃ r more, trail = r :: more ∧ r.level = p ∧ r.above = above ∧
      (r.name, r.attr) ∈ attributes := by
  induction h with
  | directive | node | entry | placing | inside =>
      exact ⟨_, _, rfl, rfl, rfl, List.mem_cons_self⟩
  | later _ _ ih =>
      obtain ⟨r, more, htrail, hlevel, habove, hmem⟩ := ih
      exact ⟨r, more, htrail, hlevel, habove, List.mem_cons_of_mem _ hmem⟩

theorem chain (h : Stops kind attributes p above level s trail cause) :
    trail.IsChain Reached.Encloses := by
  induction h with
  | directive | node | entry | placing => exact .singleton _
  | inside _ _ _ leads _ _ stops ih =>
      obtain ⟨r, more, rfl, hlevel, habove, hmem⟩ := stops.starts
      exact .cons_cons ⟨⟨_, leads, hmem⟩, hlevel, habove⟩ ih
  | later _ _ ih => exact ih

/-- The last attribute of a trail has a fault of this cause, or leads to a resource for which no
name is free. -/
theorem last (h : Stops kind attributes p above level s trail cause) :
    ∃ r ∈ trail.getLast?, r.Fault kind cause ∨ cause.NamesExhausted := by
  induction h with
  | directive malformed => exact ⟨_, rfl, .inl (.directive malformed)⟩
  | node _ _ mem fault => exact ⟨_, rfl, .inl (.node mem fault)⟩
  | entry _ _ _ leads refused =>
      refine ⟨_, rfl, ?_⟩
      cases refused with
      | deep hd => exact .inl (.nesting leads hd)
      | exhausted taken => exact .inr ⟨_, rfl⟩
  | @placing name a rest p above level s s₁ s₂ comment variants v _ _ resolved mem exposes =>
      obtain ⟨names, -, rfl⟩ := returns_schema resolved
      exact ⟨_, rfl, .inl (fault_of_exposes (r := ⟨p, above, name, a⟩) mem exposes)⟩
  | inside _ _ _ _ _ _ stops ih =>
      obtain ⟨r, hr, hfault⟩ := ih
      obtain ⟨first, more, rfl, -⟩ := stops.starts
      exact ⟨r, by rwa [List.getLast?_cons_cons], hfault⟩
  | later _ _ ih => exact ih

end Stops

namespace Stopped

variable {schema : Resource} {config : Config} {symbols : SymbolTable} {trail : List Reached}
  {cause : BuildError}

theorem isTrail (h : Stopped schema config symbols trail cause) : IsTrail schema trail := by
  obtain ⟨attributes⟩ := schema
  cases h with
  | entry => exact ⟨by simp, by simp, .nil⟩
  | inside _ stops =>
      refine ⟨?_, ?_, stops.chain⟩
      · rw [Resource.reached, Resource.reachedFrom]
        exact stops.reached
      · obtain ⟨r, more, rfl, hlevel, habove, hmem⟩ := stops.starts
        intro r' hr'
        cases hr'
        exact ⟨hlevel, habove, hmem⟩

theorem last (h : Stopped schema config symbols trail cause) :
    ∀ r ∈ trail.getLast?, r.Fault config.kind cause ∨ cause.NamesExhausted := by
  intro r hr
  cases h with
  | entry => cases hr
  | inside _ stops =>
      obtain ⟨r', hr', hfault⟩ := stops.last
      rw [hr'] at hr
      cases hr
      exact hfault

end Stopped

/-! ### Main statement -/

section build

variable {schema : Resource} {config : Config} {symbols : SymbolTable} {e : BuildError}

/-- A build fails as its root does, inside the step that names the kind. -/
theorem build_error_iff :
    (build schema config symbols).outcome = .error e ↔
      ∃ e', Fails (resource schema (.root config.kind) 0) { symbols, config } e' ∧
        e = .context (.types config.kind) e' := by
  have hb : ∃ f, (build schema config symbols).outcome =
      (runFrom (within (.types config.kind) (resource schema (.root config.kind) 0))
        { symbols, config }).1.map f := ⟨_, rfl⟩
  obtain ⟨f, hb⟩ := hb
  rw [hb, ← fails_within, Fails]
  cases (runFrom (within (.types config.kind) (resource schema (.root config.kind) 0))
    { symbols, config }).1 <;> simp [Except.map]

theorem stopped_of_build (h : (build schema config symbols).outcome = .error e) :
    ∃ trail, Stopped schema config symbols trail e.rootCause ∧
      e.trail = trail.map Reached.path := by
  obtain ⟨attributes⟩ := schema
  obtain ⟨e', hfails, rfl⟩ := build_error_iff.mp h
  rw [BuildError.trail_context, BuildError.rootCause_context]
  obtain ⟨refused, htrail⟩ | ⟨-, opened, t, hopened, hfields⟩ := fails_resource hfails
  · exact ⟨[], .entry refused, by rw [htrail]; rfl⟩
  · obtain ⟨trail, hstops, htrail⟩ := stops_of_fails hfields
    exact ⟨trail, .inside hopened hstops, htrail⟩

theorem trail_of_stopped {trail : List Reached} {cause : BuildError}
    (stopped : Stopped schema config symbols trail cause)
    (h : (build schema config symbols).outcome = .error e) : e.trail = trail.map Reached.path := by
  obtain ⟨attributes⟩ := schema
  obtain ⟨e', hfails, rfl⟩ := build_error_iff.mp h
  have shallow : FieldPath.root.depth < maxDepth := by decide
  rw [BuildError.trail_context]
  obtain ⟨refused, htrail⟩ | ⟨-, opened, t, hopened, hfields⟩ := fails_resource hfails
  · rw [htrail]
    cases stopped with
    | entry => rfl
    | inside opens => exact absurd opens (refused.not_opened shallow)
  · cases stopped with
    | entry refused => exact absurd hopened (refused.not_opened shallow)
    | inside opens stops =>
        obtain ⟨rfl, rfl⟩ := hopened.unique opens
        obtain ⟨e₀, hfails₀, htrail⟩ := fails_of_stops stops
        have same : e' = e₀ := Except.error.inj (hfields.symm.trans hfails₀)
        rw [same]
        exact htrail

/-- The outermost step around the error of a failing build names the kind, and the fields that the
steps name are those on the way from the root to where the build stops. -/
theorem trail_of_build (h : (build schema config symbols).outcome = .error e) :
    (∃ inner, e = .context (.types config.kind) inner) ∧
    (∃ trail, Stopped schema config symbols trail e.rootCause) ∧
    ∀ trail cause, Stopped schema config symbols trail cause →
      e.trail = trail.map Reached.path ∧ IsTrail schema trail ∧
        (∀ r ∈ trail.getLast?, r.Fault config.kind cause ∨ cause.NamesExhausted) ∧
        e.trail.IsChain FieldPath.Extends ∧ e.trail.Nodup := by
  refine ⟨?_, ?_, fun trail cause stopped => ?_⟩
  · obtain ⟨e', -, rfl⟩ := build_error_iff.mp h
    exact ⟨e', rfl⟩
  · obtain ⟨trail, stopped, -⟩ := stopped_of_build h
    exact ⟨trail, stopped⟩
  · have htrail := trail_of_stopped stopped h
    have extend : e.trail.IsChain FieldPath.Extends := by
      rw [htrail, List.isChain_map]
      exact stopped.isTrail.chain.imp fun _ _ => Reached.Encloses.extends
    exact ⟨htrail, stopped.isTrail, stopped.last, extend, nodup_of_extends extend⟩

end build

/-- Lists of lists of a resource, one attribute of which holds an element of an invalid kind. -/
def nestedFaultSchema : Resource :=
  .mk
    [("name", .mk { kind := .string, optional := true } .unset),
      ("rules", .mk { kind := .list, optional := true }
        (.schema (.mk { kind := .list } (.resource (.mk
          [("size", .mk { kind := .int, optional := true } .unset),
            ("tags", .mk { kind := .set, optional := true }
              (.schema (.mk { kind := .invalid } .unset)))])))))]

/-- The trail leads through the lists to the attribute around the invalid element, past the
attributes before. -/
theorem trail_of_build_broken :
    ∃ e, (build nestedFaultSchema { name := "k", kind := "K" } .empty).outcome = .error e ∧
      e.rootCause = .invalidKind .invalid ∧
      e.trail = [⟨[.field "rules"]⟩, ⟨[.field "rules", .wildcard, .wildcard, .field "tags"]⟩] ∧
      (∃ inner, e = .context (.types "K") inner) ∧
      ∃ trail, Stopped nestedFaultSchema { name := "k", kind := "K" } .empty trail e.rootCause ∧
        e.trail = trail.map Reached.path ∧ e.trail.IsChain FieldPath.Extends ∧ e.trail.Nodup := by
  obtain ⟨e, h, run⟩ := BuildResult.exists_error (f := fun e => (e.rootCause, e.trail))
    (show (build nestedFaultSchema { name := "k", kind := "K" } .empty).error?.map _ =
      some (.invalidKind .invalid, [⟨[.field "rules"]⟩,
        ⟨[.field "rules", .wildcard, .wildcard, .field "tags"]⟩]) by decide +kernel)
  obtain ⟨hroot, htrail⟩ := Prod.mk.inj run
  obtain ⟨hkind, ⟨trail, stopped⟩, all⟩ := trail_of_build h
  obtain ⟨paths, -, -, extend, nodup⟩ := all trail _ stopped
  exact ⟨e, h, hroot, htrail, hkind, trail, stopped, paths, extend, nodup⟩

end ResourceTypes
