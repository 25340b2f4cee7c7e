import ResourceTypes.Proofs.Build.Flags
import ResourceTypes.Proofs.Build.Locations
import ResourceTypes.Proofs.Build.Outcomes
import ResourceTypes.Proofs.Build.Walk

/-! # Faults of a schema

A fault is what makes a build fail whatever the configuration and the table of names: a node of
a kind that has no type (`NodeFault`), or at a reached attribute a malformed description, a
secret that is no text or a resource nested too deep (`Reached.Fault`).  Each is local, and comes
with the root cause that it gives.

A build finds the faults in the order of its visit and stops at the first, so that one error hides
later ones.  `settles_fields` carries both sides along the visit: a visit that succeeds has met
no fault, and one that fails has met the fault of its root cause, or no name was free.  Hence
`build_fails_by_faults`: a schema with a fault is never built, and only the table of names can
stop the build of one without. -/

namespace ResourceTypes

open Build

/-! ### Faults -/

/-- A fault of a node at its path, with the root cause that it gives. -/
inductive NodeFault (kind : String) : FieldPath × Attribute → BuildError → Prop
  | invalidKind {p : FieldPath} {a : Attribute} (invalid : a.kind = .invalid) :
      NodeFault kind (p, a) (.invalidKind .invalid)
  | element {p : FieldPath} {traits : Traits} {k : ValueKind}
      (collection : traits.kind.isCollection = true) (untyped : Primitive.ofKind? k = none) :
      NodeFault kind (p, .mk traits (.primitive k))
        (.unsupportedElement (Location.ofPath kind p).label)
  | depth {p : FieldPath} {a : Attribute} (deep : maxDepth ≤ p.depth) :
      NodeFault kind (p, a) (.depthLimit maxDepth)

/-- A fault of a reached attribute, with the root cause that it gives. -/
inductive Reached.Fault (kind : String) (r : Reached) : BuildError → Prop
  | directive {cause : DirectiveError}
      (malformed : Comment.parse r.attr.traits.description = .error cause) :
      Fault kind r (.comment r.attr.traits.description cause)
  | node {v : FieldPath × Attribute} {e : BuildError} (mem : v ∈ r.attr.nodes r.path)
      (fault : NodeFault kind v e) : Fault kind r e
  | secret {type : ValueType} (sensitive : r.attr.traits.sensitive = true)
      (settable : r.attr.isObservation = false) (noString : r.attr.kind ≠ .string)
      (noText : type.isStringLike = false) :
      Fault kind r (.invalidSensitiveType type (FieldName.ofSnake r.name).camel)
  | nesting {inner : Resource} (leads : r.attr.nested? = some inner)
      (deep : maxDepth ≤ (r.path.inside r.attr).depth) : Fault kind r (.depthLimit maxDepth)

/-- No node has a fault. -/
def SoundNodes (kind : String) (nodes : List (FieldPath × Attribute)) : Prop :=
  ∀ v ∈ nodes, ∀ e, ¬ NodeFault kind v e

/-- No reached attribute has a fault. -/
def SoundAttributes (kind : String) (rs : List Reached) : Prop := ∀ r ∈ rs, ∀ e, ¬ r.Fault kind e

/-- The error is the root cause of a fault of a reached attribute, or no name was free. -/
def Accounted (kind : String) (rs : List Reached) (e : BuildError) : Prop :=
  (∃ r ∈ rs, r.Fault kind e) ∨ e.NamesExhausted

theorem soundNodes_cons {kind : String} {v : FieldPath × Attribute}
    {nodes : List (FieldPath × Attribute)} :
    SoundNodes kind (v :: nodes) ↔ (∀ e, ¬ NodeFault kind v e) ∧ SoundNodes kind nodes :=
  List.forall_mem_cons

theorem Accounted.mono {kind : String} {rs rs' : List Reached} (h : ∀ r ∈ rs, r ∈ rs')
    {e : BuildError} (he : Accounted kind rs e) : Accounted kind rs' e :=
  he.imp_left fun ⟨r, hr, hf⟩ => ⟨r, h r hr, hf⟩

/-! ### Variants of a sound attribute -/

theorem ValueKind.eq_invalid_of_untyped {k : ValueKind} (hk : k.isCollection = false)
    (hp : Primitive.ofKind? k = none) : k = .invalid := by
  cases k <;> simp_all [isCollection, Primitive.ofKind?]

namespace Attribute

theorem variants_ne_nil {kind : String} {a : Attribute} {p : FieldPath} {names : Option TypeNames}
    (hn : names.isSome = a.nested?.isSome) (h : SoundNodes kind (a.nodes p)) :
    a.variants names ≠ [] := by
  induction a using chain_induction generalizing p with
  | scalar traits element hk =>
      have hvalid : traits.kind ≠ .invalid := fun e => h _ (self_mem_nodes _ p) _ (.invalidKind e)
      cases hp : Primitive.ofKind? traits.kind with
      | none => exact absurd (ValueKind.eq_invalid_of_untyped hk hp) hvalid
      | some q => cases element <;> simp [variants, variantsOver, hp]
  | unset traits hk => simp [variants, variantsOver_collection _ hk]
  | primitive traits k hk =>
      cases hp : Primitive.ofKind? k with
      | none => exact absurd (.element hk hp) (h _ (self_mem_nodes _ p) _)
      | some q => simp [variants, variantsOver_collection _ hk, hp]
  | resource traits inner hk =>
      rw [nested?_resource inner hk] at hn
      obtain ⟨n, rfl⟩ := Option.isSome_iff_exists.mp hn
      simp [variants, variantsOver_collection _ hk]
  | schema traits inner hk ih =>
      rw [nested?_schema inner hk] at hn
      rw [nodes_schema inner p hk, soundNodes_cons] at h
      simpa [variants, variantsOver_collection _ hk] using ih hn h.2

theorem exists_settable {kind : String} {a : Attribute} {p : FieldPath} {names : Option TypeNames}
    (hn : names.isSome = a.nested?.isSome) (h : SoundNodes kind (a.nodes p))
    (ho : a.isObservation = false) : ∃ v ∈ a.variants names, v.isObservation = false := by
  have hne := variants_ne_nil hn h
  cases hd : a.holdsDirectly with
  | false =>
      obtain ⟨v, hv⟩ := List.exists_mem_of_ne_nil _ hne
      exact ⟨v, hv, (isObservation_variants hd v hv).trans ho⟩
  | true =>
      obtain ⟨traits, element⟩ := a
      cases element with
      | resource inner =>
          have ht : traits.isObservation = false := ho
          rw [variants, variantsOver] at hne ⊢
          cases hp : Primitive.ofKind? traits.kind with
          | some q => exact ⟨_, List.mem_singleton_self _, ht⟩
          | none => cases names <;> simp_all
      | unset | primitive _ | schema _ => cases hd

end Attribute

namespace Reached

variable {kind : String} (r : Reached)

theorem kind_of_sensitive (sound : ∀ e, ¬ r.Fault kind e) (hs : r.attr.traits.sensitive = true)
    (ho : r.attr.isObservation = false) : r.attr.kind = .string := by
  by_contra hk
  exact sound _ (.secret hs ho hk (rfl : ValueType.reference.isStringLike = false))

theorem isObservation_of_sensitive {names : Option TypeNames} (sound : ∀ e, ¬ r.Fault kind e)
    (hs : r.attr.traits.sensitive = true) :
    ∀ v ∈ r.attr.variants names, v.isObservation = r.attr.isObservation := by
  cases ho : r.attr.isObservation with
  | true => exact Attribute.isObservation_variants_of_isObservation ho
  | false =>
      rw [Attribute.variants_of_string names (r.kind_of_sensitive sound hs ho)]
      simp [ho]

end Reached

/-! ### What a visit meets -/

namespace Build

variable {kind : String}

theorem settles_resource {attributes : List (String × Attribute)} {l : Location} {depth : Nat}
    {P : Prop} {Q : BuildError → Prop} (hl : l.names ≠ [])
    (deep : maxDepth ≤ depth → Q (.depthLimit maxDepth)) (exhausted : ∀ e, e.NamesExhausted → Q e)
    (visits : ∀ level, Settles (fields attributes l depth level) (fun _ => P) Q) :
    Settles (resource (.mk attributes) l depth) (fun _ => depth < maxDepth ∧ P) Q := by
  rw [resource]
  split
  next hd => exact settles_throw (deep hd)
  next hd =>
    have opens := (settles_openLevel hl).mono (fun _ h => h) exhausted
    refine settles_bind opens fun level _ => settles_bind (visits level) fun filled hP => ?_
    exact settles_closeLevel.mono (fun _ _ => ⟨Nat.lt_of_not_le hd, hP⟩) fun _ h => h

theorem sound_node {p : FieldPath} {a : Attribute} (shallow : p.depth < maxDepth)
    (valid : a.kind ≠ .invalid)
    (typed : ∀ traits k, a = .mk traits (.primitive k) → traits.kind.isCollection = true →
      Primitive.ofKind? k ≠ none) (e : BuildError) : ¬ NodeFault kind (p, a) e := by
  rintro (h | ⟨hc, hk⟩ | h)
  · exact valid h
  · exact typed _ _ rfl hc hk
  · exact absurd shallow (Nat.not_lt_of_le h)

theorem sound_collection {p : FieldPath} {traits : Traits} {element : Element}
    (shallow : p.depth < maxDepth) (hk : traits.kind.isCollection = true)
    (typed : ∀ k, element = .primitive k → Primitive.ofKind? k ≠ none) (e : BuildError) :
    ¬ NodeFault kind (p, .mk traits element) e := by
  refine sound_node shallow (fun h => ?_) (fun _ k h _ => ?_) e
  · rw [show traits.kind = .invalid from h] at hk
    cases hk
  · cases h
    exact typed k rfl

theorem settles_schema_collection {traits : Traits} {element : Element} {l : Location} {depth : Nat}
    {P : Prop} {Q : BuildError → Prop} (hk : traits.kind.isCollection = true)
    (deep : maxDepth ≤ depth → Q (.depthLimit maxDepth))
    (resolves : depth < maxDepth →
      Settles (elementVariants element traits.isObservation l depth) (fun _ => P) Q) :
    Settles (schema (.mk traits element) l depth) (fun _ => P) Q := by
  rw [schema_eq, Attribute.ofKind?_collection hk, if_pos hk]
  split
  next hd => exact settles_throw (deep hd)
  next hd =>
    exact settles_bind (resolves (Nat.lt_of_not_le hd)) fun _ hP => settles_pure hP

theorem settles_schema_scalar {traits : Traits} {element : Element} {p : FieldPath}
    {Q : BuildError → Prop} (hk : traits.kind.isCollection = false)
    (faulty : ∀ e, NodeFault kind (p, .mk traits element) e → Q e) :
    Settles (schema (.mk traits element) (Location.ofPath kind p) p.depth)
      (fun _ => ∀ e, ¬ NodeFault kind (p, .mk traits element) e) Q := by
  rw [schema_eq]
  split
  next hd => exact settles_throw (faulty _ (.depth hd))
  next hd =>
    cases hp : Primitive.ofKind? traits.kind with
    | some q =>
        refine settles_pure (sound_node (Nat.lt_of_not_le hd) ?_ ?_)
        · intro h
          rw [show traits.kind = .invalid from h] at hp
          cases hp
        · intro t k h hc
          cases h
          rw [hk] at hc
          cases hc
    | none =>
        have hinvalid := ValueKind.eq_invalid_of_untyped hk hp
        rw [if_neg (by rw [hk]; exact Bool.false_ne_true), hinvalid]
        exact settles_throw (faulty _ (.invalidKind hinvalid))

theorem settles_schema_primitive {traits : Traits} {k : ValueKind} {p : FieldPath}
    {Q : BuildError → Prop} (hk : traits.kind.isCollection = true)
    (faulty : ∀ e, NodeFault kind (p, .mk traits (.primitive k)) e → Q e) :
    Settles (schema (.mk traits (.primitive k)) (Location.ofPath kind p) p.depth)
      (fun _ => ∀ e, ¬ NodeFault kind (p, .mk traits (.primitive k)) e) Q := by
  refine settles_schema_collection hk (fun hd => faulty _ (.depth hd)) fun hd => ?_
  rw [elementVariants]
  cases hp : Primitive.ofKind? k with
  | some q => exact settles_pure (sound_collection hd hk (by simp [hp]))
  | none => exact settles_throw (faulty _ (.element hk hp))

theorem settles_schema_resource {traits : Traits} {inner : Resource} {p : FieldPath} {P : Prop}
    {Q : BuildError → Prop} (hk : traits.kind.isCollection = true)
    (faulty : ∀ e, NodeFault kind (p, .mk traits (.resource inner)) e → Q e)
    (builds : Settles (resource inner (Location.ofPath kind p.wildcard) p.wildcard.depth)
      (fun _ => P) Q) :
    Settles (schema (.mk traits (.resource inner)) (Location.ofPath kind p) p.depth)
      (fun _ => (∀ e, ¬ NodeFault kind (p, .mk traits (.resource inner)) e) ∧ P) Q := by
  refine settles_schema_collection hk (fun hd => faulty _ (.depth hd)) fun hd => ?_
  rw [elementVariants, Location.element_ofPath, ← FieldPath.depth_wildcard]
  refine settles_bind (settles_within builds) fun refs hP => ?_
  have sound (e : BuildError) : ¬ NodeFault kind (p, .mk traits (.resource inner)) e :=
    sound_collection hd hk (by simp) e
  dsimp only
  split <;> exact settles_pure ⟨sound, hP⟩

theorem settles_schema_element {traits : Traits} {inner : Attribute} {p : FieldPath} {P : Prop}
    {Q : BuildError → Prop} (hk : traits.kind.isCollection = true)
    (faulty : ∀ e, NodeFault kind (p, .mk traits (.schema inner)) e → Q e)
    (resolves : Settles (schema inner (Location.ofPath kind p.wildcard) p.wildcard.depth)
      (fun _ => P) Q) :
    Settles (schema (.mk traits (.schema inner)) (Location.ofPath kind p) p.depth)
      (fun _ => (∀ e, ¬ NodeFault kind (p, .mk traits (.schema inner)) e) ∧ P) Q := by
  refine settles_schema_collection hk (fun hd => faulty _ (.depth hd)) fun hd => ?_
  rw [elementVariants, Location.element_ofPath, ← FieldPath.depth_wildcard]
  refine settles_bind (settles_within resolves) fun variants hP => settles_pure ⟨?_, hP⟩
  exact sound_collection hd hk (by simp)

/-- An attribute whose nodes are sound settles as the resource to which it leads. -/
theorem settles_schema {a : Attribute} {p : FieldPath} {P : Prop} {Q : BuildError → Prop}
    (faulty : ∀ v ∈ a.nodes p, ∀ e, NodeFault kind v e → Q e)
    (builds : ∀ r, a.nested? = some r →
      Settles (resource r (Location.ofPath kind (p.inside a)) (p.inside a).depth) (fun _ => P) Q) :
    Settles (schema a (Location.ofPath kind p) p.depth)
      (fun _ => SoundNodes kind (a.nodes p) ∧ (a.nested?.isSome = true → P)) Q := by
  induction a using Attribute.chain_induction generalizing p with
  | scalar traits element hk =>
      rw [Attribute.nodes_scalar element p hk] at faulty ⊢
      have settles := settles_schema_scalar hk (faulty _ (List.mem_singleton_self _))
      refine settles.mono (fun _ sound => ⟨List.forall_mem_singleton.mpr sound, ?_⟩) fun _ h => h
      simp [Attribute.nested?_scalar element hk]
  | unset traits hk =>
      have deep := fun hd => faulty _ (Attribute.self_mem_nodes _ p) _ (.depth hd)
      refine settles_schema_collection hk deep fun hd => ?_
      rw [elementVariants]
      refine settles_pure ⟨?_, by simp [Attribute.nested?]⟩
      exact List.forall_mem_singleton.mpr (sound_collection hd hk (by simp))
  | primitive traits k hk =>
      have settles := settles_schema_primitive hk (faulty _ (Attribute.self_mem_nodes _ p))
      refine settles.mono (fun _ sound => ⟨List.forall_mem_singleton.mpr sound, ?_⟩) fun _ h => h
      simp [Attribute.nested?]
  | resource traits inner hk =>
      have settles := settles_schema_resource hk (faulty _ (Attribute.self_mem_nodes _ p))
        (builds inner (Attribute.nested?_resource inner hk))
      refine settles.mono (fun _ h => ⟨?_, fun _ => h.2⟩) fun _ h => h
      exact List.forall_mem_singleton.mpr h.1
  | schema traits inner hk ih =>
      rw [Attribute.nodes_schema inner p hk] at faulty ⊢
      rw [Attribute.nested?_schema inner hk] at builds ⊢
      obtain ⟨faultyHere, faultyInner⟩ := List.forall_mem_cons.mp faulty
      have settles := settles_schema_element hk faultyHere (ih faultyInner builds)
      refine settles.mono (fun _ h => ⟨?_, h.2.2⟩) fun _ h => h
      exact soundNodes_cons.mpr ⟨h.1, h.2.1⟩

/-- An attribute resolves to the variants of its shape, whatever names its resource got. -/
theorem returns_schema {a : Attribute} {l : Location} {depth : Nat} {s t : BuildState}
    {variants : List Variant} (h : Returns (schema a l depth) s variants t) :
    ∃ names : Option TypeNames, names.isSome = a.nested?.isSome ∧ variants = a.variants names := by
  cases ha : a.nested? with
  | none => exact ⟨none, rfl, (returns_schema_of_flat ha h).1⟩
  | some r =>
      obtain ⟨refs, -, hv⟩ := returns_schema_of_nested ha h
      exact ⟨some ⟨refs.1.name, refs.2.name⟩, rfl, hv⟩

theorem fault_of_exposes {r : Reached} {names : Option TypeNames} {c : Config} {l : Location}
    {comment : Comment} {v : Variant} (hv : v ∈ r.attr.variants names)
    (h : (Site.ofAttribute c (.ofSnake r.name) l r.attr.traits comment).Exposes v) :
    r.Fault kind (.invalidSensitiveType v.type (FieldName.ofSnake r.name).camel) := by
  obtain ⟨hs, ho, ht⟩ := h
  refine .secret hs ?_ ?_ ht
  · by_contra hobs
    rw [Bool.not_eq_false] at hobs
    rw [Attribute.isObservation_variants_of_isObservation hobs v hv] at ho
    cases ho
  · intro hk
    rw [Attribute.variants_of_string names hk, List.mem_singleton] at hv
    rw [hv] at ht
    cases ht

theorem exists_exposes {r : Reached} {names : Option TypeNames} {c : Config} {l : Location}
    {comment : Comment} (hn : names.isSome = r.attr.nested?.isSome)
    (sound : SoundNodes kind (r.attr.nodes r.path)) (hs : r.attr.traits.sensitive = true)
    (ho : r.attr.isObservation = false) (hk : r.attr.kind ≠ .string) :
    ∃ v ∈ r.attr.variants names,
      (Site.ofAttribute c (.ofSnake r.name) l r.attr.traits comment).Exposes v := by
  obtain ⟨v, hv, hset⟩ := Attribute.exists_settable hn sound ho
  exact ⟨v, hv, hs, hset, Attribute.isStringLike_variants hk v hv⟩

theorem settles_fields_cons {name : String} {a : Attribute} {rest : List (String × Attribute)}
    {p : FieldPath} {above : List Attribute} {level : Level} {P P' : Prop} {Q : BuildError → Prop}
    (faulty : ∀ e, (Reached.mk p above name a).Fault kind e → Q e)
    (builds : ∀ r, a.nested? = some r →
      Settles (resource r (Location.ofPath kind ((p.child name).inside a))
        ((p.child name).inside a).depth)
        (fun _ => ((p.child name).inside a).depth < maxDepth ∧ P) Q)
    (others : ∀ level, Settles (fields rest (Location.ofPath kind p) p.depth level)
      (fun _ => P') Q) :
    Settles (fields ((name, a) :: rest) (Location.ofPath kind p) p.depth level)
      (fun _ => (∀ e, ¬ (Reached.mk p above name a).Fault kind e) ∧
        (a.nested?.isSome = true → P) ∧ P') Q := by
  rw [fields, Location.field_ofPath, ← p.depth_child name]
  refine settles_bind (P := fun c => Comment.parse a.traits.description = .ok c) ?_
    fun comment hc => ?_
  · refine settles_commentOf.mono (fun _ h => h) ?_
    rintro e ⟨cause, hcause, rfl⟩
    exact faulty _ (.directive hcause)
  refine settles_bind settles_registerIgnored fun _ _ => ?_
  have resolves := settles_schema (fun v hv e he => faulty e (.node hv he)) builds
  refine settles_bind (settles_within (resolves.and_returns fun _ _ _ => returns_schema)) ?_
  rintro _ ⟨⟨hnodes, hbelow⟩, names, hn, rfl⟩
  refine settles_bind settles_siteOf fun site hsite => ?_
  obtain ⟨c, rfl⟩ := hsite
  refine settles_bind (P := fun _ => ∀ v ∈ a.variants names,
    ¬ (Site.ofAttribute c (.ofSnake name) (.ofPath kind (p.child name)) a.traits comment).Exposes v)
    (settles_within (settles_placeVariants.mono (fun _ h => h) ?_)) fun placed hsafe => ?_
  · rintro e ⟨v, hv, hexp, rfl⟩
    exact faulty _ (fault_of_exposes (r := ⟨p, above, name, a⟩) hv hexp)
  rw [p.depth_child name]
  refine (others placed).mono (fun _ hP' => ⟨?_, fun h => (hbelow h).2, hP'⟩) fun _ h => h
  rintro e (hmal | ⟨hv, hf⟩ | ⟨hs, ho, hk, -⟩ | ⟨hleads, hdeep⟩)
  · rw [hc] at hmal
    cases hmal
  · exact hnodes _ hv _ hf
  · obtain ⟨v, hv, hexp⟩ := exists_exposes (r := ⟨p, above, name, a⟩) hn hnodes hs ho hk
    exact hsafe v hv hexp
  · have shallow := (hbelow (by rw [show a.nested? = some _ from hleads]; rfl)).1
    exact absurd shallow (Nat.not_lt_of_le hdeep)

/-- A visit that succeeds has met no fault, and one that fails met the fault of its root cause. -/
theorem settles_fields (attributes : List (String × Attribute)) (p : FieldPath)
    (above : List Attribute) (level : Level) :
    Settles (fields attributes (Location.ofPath kind p) p.depth level)
      (fun _ => SoundAttributes kind (reachedIn attributes p above))
      (Accounted kind (reachedIn attributes p above)) := by
  induction attributes using Resource.attributes_induction generalizing p above level with
  | nil =>
      rw [fields]
      exact settles_pure (by simp [SoundAttributes])
  | flat name a rest ha ih =>
      rw [reachedIn_cons_flat rest p above ha]
      have others (level : Level) := (ih p above level).mono
        (fun _ h => h) fun e => Accounted.mono fun r hr =>
          List.mem_cons_of_mem ⟨p, above, name, a⟩ hr
      refine (settles_fields_cons (P := True) (fun e h => .inl ⟨_, List.mem_cons_self, h⟩)
        (by simp [ha]) others).mono ?_ fun _ h => h
      rintro _ ⟨hfirst, -, hrest⟩
      exact List.forall_mem_cons.mpr ⟨hfirst, hrest⟩
  | nested name a inner rest ha ihi ihr =>
      rw [reachedIn_cons_nested rest p above ha]
      have mem {r : Reached} (h : r ∈ reachedIn inner ((p.child name).inside a) (above ++ [a]) ∨
          r ∈ reachedIn rest p above) :=
        List.mem_cons_of_mem ⟨p, above, name, a⟩ (List.mem_append.mpr h)
      have visits (level : Level) :=
        (ihi ((p.child name).inside a) (above ++ [a]) level).mono
          (fun _ h => h) fun e => Accounted.mono fun r hr => mem (.inl hr)
      have others (level : Level) := (ihr p above level).mono
        (fun _ h => h) fun e => Accounted.mono fun r hr => mem (.inr hr)
      refine (settles_fields_cons
        (P := SoundAttributes kind (reachedIn inner ((p.child name).inside a) (above ++ [a])))
        (fun e h => .inl ⟨_, List.mem_cons_self, h⟩) ?_ others).mono ?_ fun _ h => h
      · intro r hr
        rw [ha] at hr
        cases hr
        refine settles_resource (List.cons_ne_nil _ _) (fun hd => .inl ?_) (fun e h => .inr h)
          visits
        exact ⟨_, List.mem_cons_self, .nesting ha hd⟩
      · rintro _ ⟨hfirst, hbelow, hrest⟩
        refine List.forall_mem_cons.mpr ⟨hfirst, List.forall_mem_append.mpr ⟨?_, hrest⟩⟩
        exact hbelow (by rw [ha]; rfl)

end Build

/-! ### Outcomes of a build -/

theorem BuildError.rootCause_ne_context (e : BuildError) (step : BuildStep) (inner : BuildError) :
    e.rootCause ≠ .context step inner := by
  induction e with
  | context s i ih => exact ih
  | _ => simp [rootCause]

theorem Accounted.ne_emptyNameChain {kind : String} {rs : List Reached} {e : BuildError}
    (h : Accounted kind rs e) : e ≠ .emptyNameChain := by
  rintro rfl
  obtain ⟨r, -, hf⟩ | ⟨name, hn⟩ := h
  · cases hf with
    | node _ hf => cases hf
  · cases hn

theorem settles_root (schema : Resource) (kind : String) :
    Settles (resource schema (.root kind) 0) (fun _ => SoundAttributes kind schema.reached)
      (Accounted kind schema.reached) := by
  obtain ⟨attributes⟩ := schema
  rw [Resource.reached, Resource.reachedFrom, Location.root_eq_ofPath, ← FieldPath.depth_root]
  refine (settles_resource (List.cons_ne_nil _ _) (fun h => absurd h (by decide))
    (fun e h => .inr h) fun level => settles_fields _ _ _ level).mono (fun _ h => h.2) fun _ h => h

/-- A build that succeeds had no fault to meet, and one that fails met the fault of its root
cause. -/
theorem outcome_settles (schema : Resource) (config : Config) (symbols : SymbolTable) :
    match (build schema config symbols).outcome with
    | .ok _ => SoundAttributes config.kind schema.reached
    | .error e => Accounted config.kind schema.reached e.rootCause := by
  have settled :
      Settles (within (.types config.kind) (resource schema (.root config.kind) 0)) _ _ :=
    settles_within (settles_root schema config.kind)
  specialize settled { symbols, config }
  have hb : ∃ f, (build schema config symbols).outcome =
      (runFrom (within (.types config.kind) (resource schema (.root config.kind) 0))
        { symbols, config }).1.map f := ⟨_, rfl⟩
  obtain ⟨f, hb⟩ := hb
  rw [hb]
  cases h : (runFrom (within (.types config.kind) (resource schema (.root config.kind) 0))
      { symbols, config }).1 <;>
    rwa [h] at settled

theorem sound_of_build {schema : Resource} {config : Config} {symbols : SymbolTable}
    {g : Generated} (h : (build schema config symbols).outcome = .ok g) :
    SoundAttributes config.kind schema.reached := by
  have settled := outcome_settles schema config symbols
  rwa [h] at settled

theorem accounted_of_build {schema : Resource} {config : Config} {symbols : SymbolTable}
    {e : BuildError} (h : (build schema config symbols).outcome = .error e) :
    Accounted config.kind schema.reached e.rootCause := by
  have settled := outcome_settles schema config symbols
  rwa [h] at settled

/-! ### Main statement -/

/-- A build fails when a reached attribute has a fault.  It fails without one only for want of a
free name.  The root cause of a failure is that of a fault or names the name that was not free. -/
theorem build_fails_by_faults (schema : Resource) (config : Config) (symbols : SymbolTable) :
    ((∃ r ∈ schema.reached, ∃ cause, r.Fault config.kind cause) →
      ∃ e, (build schema config symbols).outcome = .error e) ∧
    ((∀ r ∈ schema.reached, ∀ cause, ¬ r.Fault config.kind cause) →
      (∃ g, (build schema config symbols).outcome = .ok g) ∨
        ∃ e, (build schema config symbols).outcome = .error e ∧ e.rootCause.NamesExhausted) ∧
    ∀ e, (build schema config symbols).outcome = .error e →
      ((∃ r ∈ schema.reached, r.Fault config.kind e.rootCause) ∨ e.rootCause.NamesExhausted) ∧
        e.rootCause ≠ .emptyNameChain ∧ ∀ step inner, e.rootCause ≠ .context step inner := by
  refine ⟨?_, ?_, fun e h => ?_⟩
  · rintro ⟨r, hr, cause, hf⟩
    cases h : (build schema config symbols).outcome with
    | ok g => exact absurd hf (sound_of_build h r hr cause)
    | error e => exact ⟨e, rfl⟩
  · intro sound
    cases h : (build schema config symbols).outcome with
    | ok g => exact .inl ⟨g, rfl⟩
    | error e =>
        refine .inr ⟨e, rfl, (accounted_of_build h).resolve_left ?_⟩
        rintro ⟨r, hr, hf⟩
        exact sound r hr _ hf
  · have accounted := accounted_of_build h
    exact ⟨accounted, accounted.ne_emptyNameChain, e.rootCause_ne_context⟩

/-- An element without a type before an attribute of an invalid kind. -/
def faultySchema : Resource :=
  .mk
    [("a", .mk { kind := .list, optional := true } (.primitive .map)),
      ("b", .mk { kind := .invalid, optional := true } .unset)]

/-- The error of the first fault hides the second. -/
theorem build_fails_by_faults_hidden :
    (∃ r ∈ faultySchema.reached, r.Fault "K" (.invalidKind .invalid)) ∧
      ∃ e, (build faultySchema { name := "k", kind := "K" } .empty).outcome = .error e ∧
        e.rootCause = .unsupportedElement "K.A" := by
  have faulty : ∃ r ∈ faultySchema.reached, r.Fault "K" (.invalidKind .invalid) := by
    rw [Resource.reached, faultySchema, Resource.reachedFrom]
    refine ⟨_, mem_reachedIn_of_mem _ _ (List.mem_cons_of_mem _ List.mem_cons_self), ?_⟩
    exact .node (Attribute.self_mem_nodes _ _) (.invalidKind rfl)
  obtain ⟨r, hr, hf⟩ := faulty
  obtain ⟨e, he⟩ := (build_fails_by_faults faultySchema { name := "k", kind := "K" } .empty).1
    ⟨r, hr, _, hf⟩
  have hroot : (match (build faultySchema { name := "k", kind := "K" } .empty).outcome with
      | .ok _ => none
      | .error e => some e.rootCause) = some (.unsupportedElement "K.A") := by decide +kernel
  rw [he] at hroot
  exact ⟨⟨r, hr, hf⟩, e, he, Option.some.inj hroot⟩

end ResourceTypes
