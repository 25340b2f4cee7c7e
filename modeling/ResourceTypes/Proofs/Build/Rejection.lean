import ResourceTypes.Proofs.Build.Registry
import ResourceTypes.Proofs.Build.Rereading
import ResourceTypes.Proofs.Build.Trails
import ResourceTypes.Proofs.Build.Values

/-! # Rejected secrets

A secret that can be set and is no text is rejected, and the build stops.  `stateAfter` is the state
that a computation leaves, whether it succeeds or fails: a sequence that stops in its first part
leaves what that part leaves, and so the build leaves what the placing of the rejected attribute
leaves.

The steps before write nothing at the path of the attribute (`Stops.targetFor?_rejected`).  The
attribute itself is rejected before anything is registered for it, unless it collects a resource:
then what is observed of it comes first, and is registered (`stateAfter_placeVariants`).  Hence
`registry_of_rejected`. -/

namespace ResourceTypes

open Build

/-! ### States that are left -/

namespace Build

variable {α β : Type} {s t : BuildState} {e : BuildError}

/-- The state that a computation leaves, whether it gives a value or fails. -/
def stateAfter (x : Build α) (s : BuildState) : BuildState := (runFrom x s).2

theorem Returns.stateAfter_bind {x : Build α} {a : α} (h : Returns x s a t) (f : α → Build β) :
    Build.stateAfter (x >>= f) s = Build.stateAfter (f a) t := by
  rw [Build.stateAfter, runFrom_bind, show runFrom x s = _ from h, Build.stateAfter]

theorem Fails.stateAfter_bind {x : Build α} (h : Fails x s e) (f : α → Build β) :
    stateAfter (x >>= f) s = stateAfter x s := by
  rw [Fails] at h
  rw [stateAfter, stateAfter, runFrom_bind]
  rcases hr : runFrom x s with ⟨e' | a, u⟩
  · rfl
  · rw [hr] at h
    cases h

theorem stateAfter_bind_of_forall {x : Build α} {f : α → Build β}
    (h : ∀ a u, stateAfter (f a) u = u) : stateAfter (x >>= f) s = stateAfter x s := by
  rw [stateAfter, stateAfter, runFrom_bind]
  rcases runFrom x s with ⟨e' | a, u⟩
  · rfl
  · exact h a u

theorem stateAfter_within {step : BuildStep} {x : Build α} :
    stateAfter (within step x) s = stateAfter x s := by
  rw [stateAfter, stateAfter, runFrom_within]
  rcases runFrom x s with ⟨e' | a, u⟩ <;> rfl

/-- A sound attribute that leads to a resource leaves the state that the resource leaves. -/
theorem stateAfter_schema {a : Attribute} {r : Resource} {kind : String} {p : FieldPath}
    (sound : SoundNodes kind (a.nodes p)) (leads : a.nested? = some r) :
    stateAfter (schema a (.ofPath kind p) p.depth) s =
      stateAfter (resource r (.ofPath kind (p.inside a)) (p.inside a).depth) s := by
  have shallow : ¬ maxDepth ≤ p.depth := fun deep =>
    sound _ (a.self_mem_nodes p) _ (.depth deep)
  induction a using Attribute.chain_induction generalizing p with
  | scalar traits element hk => simp [Attribute.nested?_scalar element hk] at leads
  | unset traits hk => simp [Attribute.nested?] at leads
  | primitive traits k hk => simp [Attribute.nested?] at leads
  | resource traits inner hk =>
      rw [Attribute.nested?_resource inner hk] at leads
      cases leads
      rw [schema_eq, if_neg shallow, Attribute.ofKind?_collection hk, if_pos hk, elementVariants,
        stateAfter_bind_of_forall fun _ _ => rfl, stateAfter_bind_of_forall, stateAfter_within,
        ← Location.inside_ofPath, FieldPath.depth_inside]
      · rfl
      · intro refs u
        dsimp only
        split <;> rfl
  | schema traits inner hk ih =>
      rw [Attribute.nested?_schema inner hk] at leads
      rw [Attribute.nodes_schema inner p hk, soundNodes_cons] at sound
      rw [schema_eq, if_neg shallow, Attribute.ofKind?_collection hk, if_pos hk, elementVariants,
        stateAfter_bind_of_forall fun _ _ => rfl, stateAfter_bind_of_forall fun _ _ => rfl,
        stateAfter_within, Location.element_ofPath, ← FieldPath.depth_wildcard,
        ih sound.2 leads fun deep => sound.2 _ (inner.self_mem_nodes _) _ (.depth deep)]
      rfl

/-! ### Placing a rejected secret -/

theorem stateAfter_placeVariants_of_exposes {site : Site} {v : Variant} (h : site.Exposes v)
    (rest : List Variant) (level : Level) :
    stateAfter (placeVariants site (v :: rest) level) s = s := by
  obtain ⟨hs, ho, ht⟩ := h
  have hbase : site.base v.type = .error (.invalidSensitiveType v.type site.name.camel) := by
    rw [Site.base, if_pos hs, secretField?_eq_none_iff.mpr ht]
  have hfails : Fails (placeVariant site v level) s
      (.invalidSensitiveType v.type site.name.camel) := by
    rw [placeVariant, ho, if_neg Bool.false_ne_true, hbase]
    rfl
  rw [placeVariants, hfails.stateAfter_bind, placeVariant, ho, if_neg Bool.false_ne_true, hbase]
  rfl

theorem stateAfter_placeVariants_of_observed {site : Site} {v : Variant}
    (hs : site.sensitive = true) (ho : v.isObservation = true) (rest : List Variant)
    (level : Level) :
    stateAfter (placeVariants site (v :: rest) level) s =
      stateAfter (placeVariants site rest level)
        (stateAfter
          (registerSensitive site.location (observationTarget site.location.target)) s) := by
  rw [placeVariants, placeVariant, ho, if_pos rfl, hs, if_pos rfl]
  rfl

end Build

theorem Attribute.isObservation_variants_of_not_collects {a : Attribute}
    {names : Option TypeNames} (hn : names.isSome = a.nested?.isSome)
    (h : a.collectsResource = false) :
    ∀ v ∈ a.variants names, v.isObservation = a.isObservation := by
  cases hd : a.holdsDirectly with
  | false => exact isObservation_variants hd
  | true =>
      obtain ⟨traits, element⟩ := a
      cases element with
      | unset | primitive _ | schema _ => cases hd
      | resource inner =>
          rw [collectsResource, hd, Bool.and_true] at h
          rw [nested?_of_kind h, Option.isSome_none, Option.isSome_eq_false_iff,
            Option.isNone_iff_eq_none] at hn
          subst hn
          exact isObservation_variantsOver (P := fun o => o = traits.isObservation) rfl (by simp)

/-- Placing a rejected secret registers what is observed of a collected resource, or nothing. -/
theorem Build.stateAfter_placeVariants {site : Site} {a : Attribute} {names : Option TypeNames}
    {level : Level} {s : BuildState} (hs : site.sensitive = true)
    (hn : names.isSome = a.nested?.isSome) (ho : a.isObservation = false) (hk : a.kind ≠ .string)
    (hne : a.variants names ≠ []) :
    stateAfter (placeVariants site (a.variants names) level) s =
      if a.collectsResource then
        stateAfter (registerSensitive site.location (observationTarget site.location.target)) s
      else s := by
  have text : ∀ v ∈ a.variants names, v.type.isStringLike = false :=
    Attribute.isStringLike_variants hk
  cases hc : a.collectsResource with
  | false =>
      have flags := Attribute.isObservation_variants_of_not_collects hn hc
      obtain ⟨v, rest, hv⟩ := List.exists_cons_of_ne_nil hne
      rw [hv, List.forall_mem_cons] at text flags
      rw [hv]
      exact stateAfter_placeVariants_of_exposes ⟨hs, flags.1.trans ho, text.1⟩ rest level
  | true =>
      rw [Attribute.collectsResource, Bool.and_eq_true] at hc
      obtain ⟨r, hr⟩ : ∃ r, a.nested? = some r := by
        obtain ⟨traits, _ | _ | _ | inner⟩ := a
        · cases hc.2
        · cases hc.2
        · cases hc.2
        · exact ⟨inner, Attribute.nested?_resource inner hc.1⟩
      rw [hr, Option.isSome_some, Option.isSome_iff_exists] at hn
      obtain ⟨n, rfl⟩ := hn
      rw [Attribute.variants_of_nested n hr, Attribute.innermost_of_holdsDirectly hc.2, ho,
        if_neg Bool.false_ne_true, List.forall_mem_cons, List.forall_mem_singleton] at text
      rw [Attribute.variants_of_nested n hr, Attribute.innermost_of_holdsDirectly hc.2, ho,
        if_neg Bool.false_ne_true, if_pos rfl,
        stateAfter_placeVariants_of_observed hs (by rw [hc.2]; rfl),
        stateAfter_placeVariants_of_exposes ⟨hs, rfl, text.2⟩]

/-! ### Targets at a path -/

theorem Decides.targetFor?_eq {kind : String} {rs : List Reached} {s t : BuildState}
    (h : Decides kind rs s t) {key : String} (others : key ∉ rs.map fun r => r.path.spelled) :
    t.config.targetFor? key = s.config.targetFor? key := by
  obtain ⟨ds, performs, concerns⟩ := h
  rw [performs.config, configAfter_eq]
  refine OrderedMap.get?_insertAll_of_not_mem _ fun hmem => ?_
  obtain ⟨⟨source, target⟩, he, rfl⟩ := List.mem_map.mp hmem
  cases concerns _ (Decision.mem_secrets he) with
  | secret _ mem => exact others (List.mem_map_of_mem mem)

theorem Registers.targetFor?_eq {s t : BuildState} (h : Registers [] s t) (key : String) :
    t.config.targetFor? key = s.config.targetFor? key := by
  rw [Config.targetFor?, h.sensitive]
  rfl

theorem Build.decides_schema {kind : String} (a : Attribute) (p : FieldPath)
    (above : List Attribute) (depth : Nat) :
    Moves (Decides kind (a.reachedBelow p above)) (schema a (.ofPath kind p) depth) := by
  have composes := (decides kind (a.reachedBelow p above)).composes
  refine composes.schema fun inner leads => ?_
  obtain ⟨attributes⟩ := inner
  rw [Location.inside_ofPath, Attribute.reachedBelow_eq, leads]
  simp only [Resource.reachedFrom]
  exact (decides kind _).composes.resource (decides_openLevel _)
    (decides_fields attributes _ above (fun _ hr => hr) _) (decides_closeLevel _)

/-! ### The way to a rejected secret -/

/-- A secret that can be set and is no text. -/
structure Reached.Rejected (r : Reached) : Prop where
  sensitive : r.attr.traits.sensitive = true
  settable : r.attr.isObservation = false
  noString : r.attr.kind ≠ .string

theorem Reached.rejected_of_fault {kind : String} {r : Reached} {type : ValueType} {field : String}
    (h : r.Fault kind (.invalidSensitiveType type field)) :
    r.Rejected ∧ field = (FieldName.ofSnake r.name).camel := by
  cases h with
  | secret sensitive settable noString _ => exact ⟨⟨sensitive, settable, noString⟩, rfl⟩
  | node _ fault => cases fault

/-- What is registered at the path of a rejected secret, given what was before. -/
def Reached.targetLeft (r : Reached) (before : Option String) : Option String :=
  if r.attr.collectsResource then some (observationTarget r.path.lowerCamel) else before

/-! ### States on the way -/

section states

variable {kind name : String} {a : Attribute} {rest inner : List (String × Attribute)}
  {p : FieldPath} {level opened : Level} {s s₁ s₂ : BuildState} {comment : Comment}
  {variants : List Variant} {e : BuildError}

theorem Build.stateAfter_fields_of_schema
    (parsed : Comment.parse a.traits.description = .ok comment)
    (registered : Returns (registerIgnored (.ofPath kind (p.child name))) s () s₁)
    (fails : Fails (schema a (.ofPath kind (p.child name)) (p.child name).depth) s₁ e) :
    stateAfter (fields ((name, a) :: rest) (.ofPath kind p) p.depth level) s =
      stateAfter (schema a (.ofPath kind (p.child name)) (p.child name).depth) s₁ := by
  have hcomment := returns_commentOf (l := .ofPath kind (p.child name)) (s := s).mpr ⟨parsed, rfl⟩
  rw [fields, Location.field_ofPath, ← p.depth_child name, hcomment.stateAfter_bind,
    registered.stateAfter_bind, (fails_within.mpr ⟨e, fails, rfl⟩).stateAfter_bind,
    stateAfter_within]

theorem Build.stateAfter_fields_of_placing
    (parsed : Comment.parse a.traits.description = .ok comment)
    (registered : Returns (registerIgnored (.ofPath kind (p.child name))) s () s₁)
    (resolved : Returns (schema a (.ofPath kind (p.child name)) p.depth) s₁ variants s₂)
    (fails : Fails (placeVariants (.ofAttribute s₂.config (.ofSnake name)
      (.ofPath kind (p.child name)) a.traits comment) variants level) s₂ e) :
    stateAfter (fields ((name, a) :: rest) (.ofPath kind p) p.depth level) s =
      stateAfter (placeVariants (.ofAttribute s₂.config (.ofSnake name)
        (.ofPath kind (p.child name)) a.traits comment) variants level) s₂ := by
  have hcomment := returns_commentOf (l := .ofPath kind (p.child name)) (s := s).mpr ⟨parsed, rfl⟩
  have hsite : Returns (siteOf (.ofSnake name) (.ofPath kind (p.child name)) a.traits comment) s₂
    _ s₂ := returns_siteOf.mpr ⟨rfl, rfl⟩
  rw [fields, Location.field_ofPath, hcomment.stateAfter_bind, registered.stateAfter_bind,
    (returns_within.mpr resolved).stateAfter_bind, hsite.stateAfter_bind,
    (fails_within.mpr ⟨e, fails, rfl⟩).stateAfter_bind, stateAfter_within]

theorem Build.stateAfter_resource (shallow : p.depth < maxDepth)
    (opens : Returns (openLevel (.ofPath kind p)) s opened s₁)
    (fails : Fails (fields inner (.ofPath kind p) p.depth opened) s₁ e) :
    stateAfter (resource (.mk inner) (.ofPath kind p) p.depth) s =
      stateAfter (fields inner (.ofPath kind p) p.depth opened) s₁ := by
  rw [resource, if_neg (Nat.not_le_of_lt shallow), opens.stateAfter_bind, fails.stateAfter_bind]

theorem Build.stateAfter_fields_of_nested
    (parsed : Comment.parse a.traits.description = .ok comment)
    (registered : Returns (registerIgnored (.ofPath kind (p.child name))) s () s₁)
    (sound : SoundNodes kind (a.nodes (p.child name))) (leads : a.nested? = some (.mk inner))
    (shallow : ((p.child name).inside a).depth < maxDepth)
    (opens : Returns (openLevel (.ofPath kind ((p.child name).inside a))) s₁ opened s₂)
    (fails : Fails (fields inner (.ofPath kind ((p.child name).inside a))
      ((p.child name).inside a).depth opened) s₂ e) :
    stateAfter (fields ((name, a) :: rest) (.ofPath kind p) p.depth level) s =
      stateAfter (fields inner (.ofPath kind ((p.child name).inside a))
        ((p.child name).inside a).depth opened) s₂ := by
  obtain ⟨e', -, unresolved, -⟩ :=
    fails_schema_of_nested sound leads fun _ _ => not_returns_resource opens fails
  rw [stateAfter_fields_of_schema parsed registered unresolved, stateAfter_schema sound leads,
    stateAfter_resource shallow opens fails]

/-- Where a rejected secret is placed, its target is the one that is left: before it only the
attributes below it are decided about. -/
theorem Reached.Rejected.targetFor?_placing {above : List Attribute} {v : Variant}
    (rejected : Reached.Rejected ⟨p, above, name, a⟩)
    (parsed : Comment.parse a.traits.description = .ok comment)
    (registered : Returns (registerIgnored (.ofPath kind (p.child name))) s () s₁)
    (resolved : Returns (schema a (.ofPath kind (p.child name)) p.depth) s₁ variants s₂)
    (mem : v ∈ variants)
    (exposes : (Site.ofAttribute s₂.config (.ofSnake name) (.ofPath kind (p.child name)) a.traits
      comment).Exposes v)
    (apart : (p.child name).spelled ∉
      (a.reachedBelow (p.child name) (above ++ [a])).map fun r => r.path.spelled) :
    (stateAfter (fields ((name, a) :: rest) (.ofPath kind p) p.depth level) s).config.targetFor?
        (p.child name).spelled =
      Reached.targetLeft ⟨p, above, name, a⟩ (s.config.targetFor? (p.child name).spelled) := by
  obtain ⟨names, hn, rfl⟩ := returns_schema resolved
  obtain ⟨e, fails⟩ : ∃ e, Fails (placeVariants _ (a.variants names) level) s₂ e :=
    exists_fails fun _ _ => not_returns_placeVariants mem exposes
  have kept : s₂.config.targetFor? (p.child name).spelled =
      s.config.targetFor? (p.child name).spelled := by
    rw [((decides_schema a (p.child name) (above ++ [a]) p.depth).of_returns
      resolved).targetFor?_eq apart, (registers_registerIgnored registered).targetFor?_eq]
  rw [stateAfter_fields_of_placing parsed registered resolved fails,
    stateAfter_placeVariants rejected.sensitive hn rejected.settable rejected.noString
      (List.ne_nil_of_mem mem), Reached.targetLeft]
  split
  next => exact OrderedMap.get?_insert_self _ _ _
  next => exact kept

end states

theorem reachedIn_cons (name : String) (a : Attribute) (rest : List (String × Attribute))
    (p : FieldPath) (above : List Attribute) :
    reachedIn ((name, a) :: rest) p above =
      reachedIn [(name, a)] p above ++ reachedIn rest p above := by
  rw [reachedIn, reachedIn, reachedIn_nil, List.append_nil]
  rfl

/-- Where a visit stops at a rejected secret, the target at its path is the one that is left. -/
theorem Stops.targetFor?_rejected {kind : String} {attributes : List (String × Attribute)}
    {p : FieldPath} {above : List Attribute} {level : Level} {s : BuildState}
    {trail : List Reached} {cause : BuildError} {type : ValueType} {field : String}
    (h : Stops kind attributes p above level s trail cause)
    (rejected : cause = .invalidSensitiveType type field)
    (distinct : ((reachedIn attributes p above).map fun r => r.path.spelled).Nodup) :
    ∃ r ∈ trail.getLast?, r.Rejected ∧ field = (FieldName.ofSnake r.name).camel ∧
      (stateAfter (fields attributes (.ofPath kind p) p.depth level) s).config.targetFor?
          r.path.spelled = r.targetLeft (s.config.targetFor? r.path.spelled) := by
  induction h with
  | directive => cases rejected
  | node _ _ _ fault =>
      subst rejected
      cases fault
  | entry _ _ _ _ refused =>
      subst rejected
      cases refused
  | @placing name a rest p above level s s₁ s₂ comment variants v parsed registered resolved mem
      exposes =>
      cases rejected
      obtain ⟨names, -, rfl⟩ := returns_schema resolved
      let r : Reached := ⟨p, above, name, a⟩
      have fault : r.Fault kind _ := fault_of_exposes mem exposes
      obtain ⟨hrejected, hfield⟩ := Reached.rejected_of_fault fault
      refine ⟨r, rfl, hrejected, hfield, ?_⟩
      rw [reachedIn, List.map_cons, List.map_append, List.nodup_cons] at distinct
      exact hrejected.targetFor?_placing parsed registered resolved mem exposes fun hmem =>
        distinct.1 (List.mem_append_left _ hmem)
  | @inside name a inner rest p above level opened s s₁ s₂ comment trail cause parsed registered
      sound leads shallow opens stops ih =>
      rw [reachedIn_cons_nested rest p above leads, List.map_cons, List.map_append,
        List.nodup_cons, List.nodup_append] at distinct
      obtain ⟨r, hr, hrejected, hfield, htarget⟩ := ih rejected distinct.2.1
      obtain ⟨first, more, rfl, -⟩ := stops.starts
      obtain ⟨e, hfields, -⟩ := fails_of_stops stops
      refine ⟨r, by rwa [List.getLast?_cons_cons], hrejected, hfield, ?_⟩
      rw [stateAfter_fields_of_nested parsed registered sound leads shallow opens hfields, htarget,
        (registers_openLevel opens).targetFor?_eq,
        (registers_registerIgnored registered).targetFor?_eq]
  | @later name a rest p above level level' s t trail cause visited stops ih =>
      rw [reachedIn_cons, List.map_append, List.nodup_append] at distinct
      obtain ⟨r, hr, hrejected, hfield, htarget⟩ := ih rejected distinct.2.1
      refine ⟨r, hr, hrejected, hfield, ?_⟩
      have hmem : r ∈ reachedIn rest p above := stops.reached r (List.mem_of_getLast? hr)
      -- The first attribute and those below it have other paths.
      have decided : Decides kind (reachedIn [(name, a)] p above) s t :=
        (decides_fields [(name, a)] p above (fun _ hr => hr) p.depth level).of_returns visited
      have kept := decided.targetFor?_eq fun hfirst =>
        distinct.2.2 _ hfirst _ (List.mem_map_of_mem hmem) rfl
      rw [fields_cons, visited.stateAfter_bind, htarget, kept]

theorem finalState_of_fails {attributes : List (String × Attribute)} {config : Config}
    {symbols : SymbolTable} {opened : Level} {s : BuildState} {e : BuildError}
    (opens : Returns (openLevel (.root config.kind)) { symbols, config } opened s)
    (fails : Fails (fields attributes (.ofPath config.kind .root) FieldPath.root.depth opened) s
      e) :
    finalState (.mk attributes) config symbols =
      stateAfter (fields attributes (.ofPath config.kind .root) FieldPath.root.depth opened) s := by
  have hget : Returns get { symbols, config } { symbols, config } { symbols, config } :=
    returns_get.mpr ⟨rfl, rfl⟩
  rw [← stateAfter_resource (by decide) opens fails]
  show stateAfter (Build.root _) _ = _
  rw [Build.root, hget.stateAfter_bind, stateAfter_within]
  rfl

/-! ### Main statement -/

/-- When a build stops at a rejected secret, the registry has at the path of that attribute what was
there before, unless the attribute collects a resource: then it has the target of what is observed
of it. -/
theorem registry_of_rejected {schema : Resource} {config : Config} {symbols : SymbolTable}
    {e : BuildError} {type : ValueType} {field : String}
    (h : (build schema config symbols).outcome = .error e)
    (rejected : e.rootCause = .invalidSensitiveType type field) (ordered : schema.Ordered)
    (names : ∀ r ∈ schema.reached, r.name ≠ "" ∧ '.' ∉ r.name.toList ∧ '[' ∉ r.name.toList) :
    ∃ r ∈ schema.reached, e.trail.getLast? = some r.path ∧
      field = (FieldName.ofSnake r.name).camel ∧ r.Rejected ∧
      (build schema config symbols).config.targetFor? r.path.spelled =
        if r.attr.collectsResource then some ("status.atProvider." ++ r.path.lowerCamel.spelled)
        else config.targetFor? r.path.spelled := by
  have distinct := nodup_spelled_reached ordered fun r hr =>
    ⟨(names r hr).1, (names r hr).2.1, (names r hr).2.2⟩
  obtain ⟨trail, stopped, htrail⟩ := stopped_of_build h
  have reached := stopped.isTrail.reached
  rw [rejected] at stopped
  obtain ⟨attributes⟩ := schema
  cases stopped with
  | entry refused => cases refused
  | @inside opened s _ _ opens stops =>
      have hreached : (Resource.mk attributes).reached = reachedIn attributes .root [] := by
        rw [Resource.reached, Resource.reachedFrom]
      rw [hreached] at distinct
      change Stops config.kind attributes .root [] opened s trail _ at stops
      obtain ⟨r, hr, hrejected, hfield, htarget⟩ := stops.targetFor?_rejected rfl distinct
      obtain ⟨e', fails, -⟩ := fails_of_stops stops
      refine ⟨r, reached r (List.mem_of_getLast? hr), ?_, hfield, hrejected, ?_⟩
      · rw [htrail, List.getLast?_map, Option.mem_def.mp hr]
        rfl
      have hfinal := finalState_of_fails opens fails
      rw [config_build, hfinal, htarget, (registers_openLevel opens).targetFor?_eq]
      rfl

/-- A secret that is a text, and one in a nested resource that is a number. -/
def pinSchema : Resource :=
  .mk
    [("access_key", .mk { kind := .string, optional := true, sensitive := true } .unset),
      ("auth_rule", .mk { kind := .list, optional := true }
        (.resource (.mk
          [("pin", .mk { kind := .int, optional := true, sensitive := true } .unset)])))]

/-- A number is rejected, and what was registered for it stays. -/
theorem registry_of_rejected_number :
    ∃ config e, (build pinSchema config .empty).outcome = .error e ∧
      e.rootCause = .invalidSensitiveType (.pointer (.primitive .int64)) "Pin" ∧
      (build pinSchema config .empty).config.targetFor? "auth_rule[*].pin" = some "kept" ∧
      ∃ r ∈ pinSchema.reached, e.trail.getLast? = some r.path ∧ r.Rejected ∧
        (build pinSchema config .empty).config.targetFor? r.path.spelled =
          if r.attr.collectsResource then some ("status.atProvider." ++ r.path.lowerCamel.spelled)
          else config.targetFor? r.path.spelled := by
  let config : Config :=
    { name := "k", kind := "K", sensitive := .ofList [("auth_rule[*].pin", "kept")] }
  obtain ⟨e, he, hroot⟩ := BuildResult.exists_error (f := BuildError.rootCause)
    (show (build pinSchema config .empty).error?.map _ =
      some (.invalidSensitiveType (.pointer (.primitive .int64)) "Pin") by decide +kernel)
  have ordered : pinSchema.Ordered := by
    simp only [pinSchema, Resource.Ordered, AttributesOrdered, Attribute.Ordered, Element.Ordered]
    decide
  obtain ⟨r, hr, htrail, -, hrejected, htarget⟩ :=
    registry_of_rejected he hroot ordered (by decide +kernel)
  exact ⟨config, e, he, hroot, by decide +kernel, r, hr, htrail, hrejected, htarget⟩

/-- A secret that collects a resource. -/
def authSchema : Resource :=
  .mk [("auth", .mk { kind := .list, optional := true, sensitive := true } (.resource .empty))]

/-- It is rejected, and leaves the target of what is observed of it. -/
theorem rejected_secret_registered :
    ∃ e, (build authSchema { name := "k", kind := "K" } .empty).outcome = .error e ∧
      e.rootCause = .invalidSensitiveType (.list (.named "AuthParameters")) "Auth" ∧
      authSchema.Ordered ∧ authSchema.reached.map (fun r => r.path.spelled) = ["auth"] ∧
      (build authSchema { name := "k", kind := "K" } .empty).config.targetFor? "auth" =
        some "status.atProvider.auth" ∧
      Config.targetFor? { name := "k", kind := "K" } "auth" = none := by
  obtain ⟨e, he, hroot⟩ := BuildResult.exists_error (f := BuildError.rootCause)
    (show (build authSchema { name := "k", kind := "K" } .empty).error?.map _ =
      some (.invalidSensitiveType (.list (.named "AuthParameters")) "Auth") by decide +kernel)
  have ordered : authSchema.Ordered := by
    simp only [authSchema, Resource.empty, Resource.Ordered, AttributesOrdered, Attribute.Ordered,
      Element.Ordered]
    decide
  exact ⟨e, he, hroot, ordered, by decide +kernel, by decide +kernel, rfl⟩

end ResourceTypes
