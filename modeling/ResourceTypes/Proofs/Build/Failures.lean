import ResourceTypes.Proofs.Build.Faults

/-! # Failures of a build's steps

`Fails x s e` says that a computation fails with the error `e` from the state `s`.  A sequence fails
in its first part, or in its second from the state that the first leaves (`fails_bind`), and a
computation inside a step fails with the step around the error (`fails_within`).

The `trail` of an error are the source paths that the steps around it name, from the outside in.
Each step of a build that can fail has a law here that says where its failure lies and what it
adds to the trail: nothing on the way into elements (`fails_schema`), and the path of the attribute
where a field is built (`fails_first`). -/

namespace ResourceTypes

open Build

/-! ### Trails -/

/-- The field that a step names. -/
def BuildStep.fieldPath? : BuildStep → Option FieldPath
  | .fieldType path | .field path => some path
  | .types _ | .parametersName _ | .observationName _ | .elementSchema _ | .elementResource _ =>
    none

/-- The paths of the fields that the steps around an error name, from the outside in. -/
def BuildError.trail (e : BuildError) : List FieldPath := e.steps.filterMap BuildStep.fieldPath?

namespace BuildError

theorem trail_context (step : BuildStep) (e : BuildError) :
    (context step e).trail = step.fieldPath?.toList ++ e.trail := by
  rw [trail, steps, List.filterMap_cons]
  cases step <;> rfl

@[simp] theorem rootCause_context (step : BuildStep) (e : BuildError) :
    (context step e).rootCause = e.rootCause := rfl

end BuildError

/-! ### Failures -/

namespace Build

variable {α β : Type}

/-- The computation fails with the error. -/
def Fails (x : Build α) (s : BuildState) (e : BuildError) : Prop := (runFrom x s).1 = .error e

section sequences

variable {s t : BuildState} {e : BuildError}

@[simp] theorem not_fails_pure {a : α} : ¬ Fails (pure a) s e := by
  intro h
  have h' : (Except.ok a : Except BuildError α) = .error e := h
  cases h'

@[simp] theorem fails_throw {e' : BuildError} : Fails (throw e' : Build α) s e ↔ e' = e := by
  show (Except.error e' : Except BuildError α) = .error e ↔ _
  rw [Except.error.injEq]

/-- A sequence fails in its first part, or in the second once the first has given a value. -/
theorem fails_bind {x : Build α} {f : α → Build β} :
    Fails (x >>= f) s e ↔ Fails x s e ∨ ∃ a u, Returns x s a u ∧ Fails (f a) u e := by
  unfold Fails Returns
  rw [runFrom_bind]
  rcases runFrom x s with ⟨e' | a, u⟩ <;> simp

theorem fails_within {step : BuildStep} {x : Build α} :
    Fails (within step x) s e ↔ ∃ e', Fails x s e' ∧ e = .context step e' := by
  unfold Fails
  rw [runFrom_within]
  rcases runFrom x s with ⟨e' | a, u⟩
  · simp [eq_comm]
  · simp

theorem Settles.of_returns {x : Build α} {P : α → Prop} {Q : BuildError → Prop} {a : α}
    (hx : Settles x P Q) (h : Returns x s a t) : P a := by
  have hs := hx s
  rw [show runFrom x s = _ from h] at hs
  exact hs

theorem Settles.of_fails {x : Build α} {P : α → Prop} {Q : BuildError → Prop}
    (hx : Settles x P Q) (h : Fails x s e) : Q e.rootCause := by
  have hs := hx s
  rw [h] at hs
  exact hs

theorem not_fails_of_settles {x : Build α} {P : α → Prop} (hx : Settles x P fun _ => False) :
    ¬ Fails x s e :=
  fun h => hx.of_fails h

theorem exists_fails {x : Build α} (h : ∀ a t, ¬ Returns x s a t) : ∃ e, Fails x s e := by
  rcases hr : runFrom x s with ⟨e | a, t⟩
  · exact ⟨e, by rw [Fails, hr]⟩
  · exact absurd hr (h a t)

theorem Returns.not_fails {x : Build α} {a : α} (h : Returns x s a t) : ¬ Fails x s e := by
  intro hf
  rw [Fails, show runFrom x s = _ from h] at hf
  cases hf

theorem Returns.unique {x : Build α} {a a' : α} {t' : BuildState} (h : Returns x s a t)
    (h' : Returns x s a' t') : a = a' ∧ t = t' := by
  have both : ((Except.ok a, t) : Except BuildError α × BuildState) = (.ok a', t') :=
    h.symm.trans h'
  cases both
  exact ⟨rfl, rfl⟩

end sequences

/-! ### Steps that fail -/

section steps

variable {s t : BuildState} {e : BuildError}

theorem fails_allocate {suffix : String} {chain : List String} :
    Fails (allocate suffix chain) s e ↔
      ∃ cause, s.symbols.allocate suffix chain = .error cause ∧ e = .ofAllocation cause := by
  rw [Fails, runFrom_allocate]
  cases s.symbols.allocate suffix chain <;> simp [Except.mapError, eq_comm]

theorem fails_levelName {step : BuildStep} {suffix : String} {chain : List String}
    (unnamed : step.fieldPath? = none) (hc : chain ≠ [])
    (h : Fails (within step (allocate suffix chain)) s e) :
    ∃ name, s.symbols.allocate suffix chain = .error (.exhausted name) ∧
      e.rootCause = .nameExhausted name ∧ e.trail = [] := by
  obtain ⟨e', hallocate, rfl⟩ := fails_within.mp h
  obtain ⟨cause, hcause, rfl⟩ := fails_allocate.mp hallocate
  obtain ⟨name, rfl⟩ := allocate_error hc hcause
  refine ⟨name, hcause, rfl, ?_⟩
  rw [BuildError.trail_context, unnamed]
  rfl

/-- A level is not opened when no name is free for it; the steps around the error name no field. -/
theorem fails_openLevel {l : Location} (hl : l.names ≠ []) (h : Fails (openLevel l) s e) :
    ∃ name, s.symbols.nameLevel l.names = .error (.exhausted name) ∧
      e.rootCause = .nameExhausted name ∧ e.trail = [] := by
  rw [openLevel] at h
  obtain h | ⟨parameters, u, hparameters, h⟩ := fails_bind.mp h
  · obtain ⟨name, hname, hroot, htrail⟩ := fails_levelName rfl hl h
    refine ⟨name, ?_, hroot, htrail⟩
    rw [SymbolTable.nameLevel, hname]
  obtain ⟨hp, rfl⟩ := returns_allocate.mp (returns_within.mp hparameters)
  obtain h | ⟨observation, u, -, h⟩ := fails_bind.mp h
  · obtain ⟨name, hname, hroot, htrail⟩ := fails_levelName rfl hl h
    refine ⟨name, ?_, hroot, htrail⟩
    rw [SymbolTable.nameLevel, hp, hname]
  -- Both names are free, and taking them does not fail.
  · refine absurd h (not_fails_of_settles (P := fun _ => True) ?_)
    exact settles_bind settles_modify fun _ _ => settles_bind settles_modify fun _ _ =>
      settles_pure trivial

theorem fails_commentOf {l : Location} {description : String}
    (h : Fails (commentOf l description) s e) :
    ∃ cause, Comment.parse description = .error cause ∧
      e = .context (.field l.source) (.comment description cause) := by
  unfold commentOf at h
  cases hc : Comment.parse description with
  | ok c =>
      rw [hc] at h
      exact absurd h not_fails_pure
  | error cause =>
      rw [hc] at h
      exact ⟨cause, rfl, (fails_throw.mp h).symm⟩

theorem base_error {site : Site} {v : Variant} (ho : v.isObservation = false)
    (h : site.base v.type = .error e) :
    site.Exposes v ∧ e = .invalidSensitiveType v.type site.name.camel := by
  rw [Site.base] at h
  cases hs : site.sensitive with
  | false =>
      rw [hs, if_neg Bool.false_ne_true] at h
      cases h
  | true =>
      rw [hs, if_pos rfl] at h
      cases hf : secretField? site.name.camel v.type site.optional with
      | some secret =>
          rw [hf] at h
          cases h
      | none =>
          rw [hf] at h
          cases h
          exact ⟨⟨hs, ho, secretField?_eq_none_iff.mp hf⟩, rfl⟩

theorem fails_placeVariant {site : Site} {v : Variant} {level : Level}
    (h : Fails (placeVariant site v level) s e) :
    site.Exposes v ∧ e = .invalidSensitiveType v.type site.name.camel := by
  rw [placeVariant] at h
  cases ho : v.isObservation with
  | true =>
      rw [ho, if_pos rfl] at h
      refine absurd h (not_fails_of_settles (P := fun _ => True) ?_)
      split
      · exact settles_bind settles_registerSensitive fun _ _ => settles_pure trivial
      · exact settles_placeObservation
  | false =>
      rw [ho, if_neg Bool.false_ne_true] at h
      obtain h | ⟨base, u, -, h⟩ := fails_bind.mp h
      · cases hb : site.base v.type with
        | ok base =>
            rw [hb] at h
            exact absurd h not_fails_pure
        | error cause =>
            rw [hb] at h
            obtain rfl := fails_throw.mp h
            exact base_error ho hb
      · refine absurd h (not_fails_of_settles (P := fun _ => True) ?_)
        exact settles_bind settles_registerSettable fun _ _ => settles_placeParameter

/-- Variants are not placed when one of them exposes a secret, and no step is around the error. -/
theorem fails_placeVariants {site : Site} {variants : List Variant} {level : Level}
    (h : Fails (placeVariants site variants level) s e) :
    ∃ v ∈ variants, site.Exposes v ∧ e = .invalidSensitiveType v.type site.name.camel := by
  induction variants generalizing level s with
  | nil => exact absurd h not_fails_pure
  | cons v rest ih =>
      rw [placeVariants] at h
      obtain h | ⟨placed, u, -, h⟩ := fails_bind.mp h
      · exact ⟨v, List.mem_cons_self, fails_placeVariant h⟩
      · obtain ⟨w, hw, hexposes⟩ := ih h
        exact ⟨w, List.mem_cons_of_mem v hw, hexposes⟩

theorem not_returns_placeVariants {site : Site} {variants : List Variant} {v : Variant}
    {level placed : Level} (mem : v ∈ variants) (exposes : site.Exposes v) :
    ¬ Returns (placeVariants site variants level) s placed t := by
  intro h
  have hidden := settles_placeVariants.of_returns h
  exact hidden v mem exposes

end steps

/-! ### Failures inside an attribute -/

section attributes

variable {kind : String} {s : BuildState} {e : BuildError}

theorem fails_schema_collection {traits : Traits} {element : Element} {l : Location} {depth : Nat}
    (hk : traits.kind.isCollection = true) (h : Fails (schema (.mk traits element) l depth) s e) :
    (maxDepth ≤ depth ∧ e = .depthLimit maxDepth) ∨
      (depth < maxDepth ∧ Fails (elementVariants element traits.isObservation l depth) s e) := by
  rw [schema_eq, Attribute.ofKind?_collection hk, if_pos hk] at h
  split at h
  next hd => exact .inl ⟨hd, (fails_throw.mp h).symm⟩
  next hd =>
    obtain h | ⟨variants, u, -, h⟩ := fails_bind.mp h
    · exact .inr ⟨Nat.lt_of_not_le hd, h⟩
    · exact absurd h not_fails_pure

theorem fails_schema_scalar {traits : Traits} {element : Element} {p : FieldPath}
    (hk : traits.kind.isCollection = false)
    (h : Fails (schema (.mk traits element) (Location.ofPath kind p) p.depth) s e) :
    NodeFault kind (p, .mk traits element) e.rootCause ∧ e.trail = [] := by
  rw [schema_eq] at h
  split at h
  next hd =>
    obtain rfl := fails_throw.mp h
    exact ⟨.depth hd, rfl⟩
  next =>
    cases hp : Primitive.ofKind? traits.kind with
    | some q =>
        rw [hp] at h
        exact absurd h not_fails_pure
    | none =>
        have hinvalid := ValueKind.eq_invalid_of_untyped hk hp
        rw [hp, hk, if_neg Bool.false_ne_true, hinvalid] at h
        obtain rfl := fails_throw.mp h
        exact ⟨.invalidKind hinvalid, rfl⟩

theorem fails_schema_primitive {traits : Traits} {k : ValueKind} {p : FieldPath}
    (hk : traits.kind.isCollection = true)
    (h : Fails (schema (.mk traits (.primitive k)) (Location.ofPath kind p) p.depth) s e) :
    NodeFault kind (p, .mk traits (.primitive k)) e.rootCause ∧ e.trail = [] := by
  obtain ⟨hd, rfl⟩ | ⟨-, h⟩ := fails_schema_collection hk h
  · exact ⟨.depth hd, rfl⟩
  rw [elementVariants] at h
  cases hp : Primitive.ofKind? k with
  | some q =>
      rw [hp] at h
      exact absurd h not_fails_pure
  | none =>
      rw [hp] at h
      obtain rfl := fails_throw.mp h
      exact ⟨.element hk hp, rfl⟩

/-- The resolution of a collection of a nested resource fails as too deep, or as the resource
does. -/
theorem fails_schema_resource {traits : Traits} {inner : Resource} {p : FieldPath}
    (hk : traits.kind.isCollection = true)
    (h : Fails (schema (.mk traits (.resource inner)) (Location.ofPath kind p) p.depth) s e) :
    (maxDepth ≤ p.depth ∧ e = .depthLimit maxDepth) ∨
      p.depth < maxDepth ∧ ∃ e',
        Fails (resource inner (Location.ofPath kind p.wildcard) p.wildcard.depth) s e' ∧
        e.rootCause = e'.rootCause ∧ e.trail = e'.trail := by
  obtain deep | ⟨hd, h⟩ := fails_schema_collection hk h
  · exact .inl deep
  rw [elementVariants, Location.element_ofPath, ← FieldPath.depth_wildcard] at h
  obtain h | ⟨refs, u, -, h⟩ := fails_bind.mp h
  · obtain ⟨e', hresource, rfl⟩ := fails_within.mp h
    exact .inr ⟨hd, e', hresource, rfl, BuildError.trail_context _ e'⟩
  · dsimp only at h
    split at h <;> exact absurd h not_fails_pure

/-- The resolution of a collection of an element schema fails as too deep, or as that of the
schema. -/
theorem fails_schema_element {traits : Traits} {inner : Attribute} {p : FieldPath}
    (hk : traits.kind.isCollection = true)
    (h : Fails (schema (.mk traits (.schema inner)) (Location.ofPath kind p) p.depth) s e) :
    (maxDepth ≤ p.depth ∧ e = .depthLimit maxDepth) ∨
      p.depth < maxDepth ∧ ∃ e',
        Fails (schema inner (Location.ofPath kind p.wildcard) p.wildcard.depth) s e' ∧
        e.rootCause = e'.rootCause ∧ e.trail = e'.trail := by
  obtain deep | ⟨hd, h⟩ := fails_schema_collection hk h
  · exact .inl deep
  rw [elementVariants, Location.element_ofPath, ← FieldPath.depth_wildcard] at h
  obtain h | ⟨variants, u, -, h⟩ := fails_bind.mp h
  · obtain ⟨e', hinner, rfl⟩ := fails_within.mp h
    exact .inr ⟨hd, e', hinner, rfl, BuildError.trail_context _ e'⟩
  · exact absurd h not_fails_pure

/-- The resolution of an attribute fails at the fault of a node, and then the steps around the
error name no field, or inside the resource to which the attribute leads. -/
theorem fails_schema {a : Attribute} {p : FieldPath}
    (h : Fails (schema a (Location.ofPath kind p) p.depth) s e) :
    (∃ v ∈ a.nodes p, NodeFault kind v e.rootCause) ∧ e.trail = [] ∨
      SoundNodes kind (a.nodes p) ∧ ∃ r e', a.nested? = some r ∧
        Fails (resource r (Location.ofPath kind (p.inside a)) (p.inside a).depth) s e' ∧
        e.rootCause = e'.rootCause ∧ e.trail = e'.trail := by
  induction a using Attribute.chain_induction generalizing p e with
  | scalar traits element hk =>
      obtain ⟨fault, htrail⟩ := fails_schema_scalar hk h
      exact .inl ⟨⟨_, Attribute.self_mem_nodes _ p, fault⟩, htrail⟩
  | unset traits hk =>
      obtain ⟨hd, rfl⟩ | ⟨-, h⟩ := fails_schema_collection hk h
      · exact .inl ⟨⟨_, Attribute.self_mem_nodes _ p, .depth hd⟩, rfl⟩
      · rw [elementVariants] at h
        exact absurd h not_fails_pure
  | primitive traits k hk =>
      obtain ⟨fault, htrail⟩ := fails_schema_primitive hk h
      exact .inl ⟨⟨_, Attribute.self_mem_nodes _ p, fault⟩, htrail⟩
  | resource traits inner hk =>
      obtain ⟨hd, rfl⟩ | ⟨hd, e', hresource, hroot, htrail⟩ := fails_schema_resource hk h
      · exact .inl ⟨⟨_, Attribute.self_mem_nodes _ p, .depth hd⟩, rfl⟩
      · have sound : SoundNodes kind ((Attribute.mk traits (.resource inner)).nodes p) :=
          List.forall_mem_singleton.mpr (sound_collection hd hk (by simp))
        exact .inr ⟨sound, inner, e', Attribute.nested?_resource inner hk, hresource, hroot, htrail⟩
  | schema traits inner hk ih =>
      rw [Attribute.nodes_schema inner p hk, Attribute.nested?_schema inner hk]
      obtain ⟨hd, rfl⟩ | ⟨hd, e', hinner, hroot, htrail⟩ := fails_schema_element hk h
      · exact .inl ⟨⟨_, List.mem_cons_self, .depth hd⟩, rfl⟩
      rw [hroot, htrail]
      obtain ⟨⟨v, hv, fault⟩, htrail'⟩ | ⟨sound, inside⟩ := ih hinner
      · exact .inl ⟨⟨v, List.mem_cons_of_mem _ hv, fault⟩, htrail'⟩
      · exact .inr ⟨soundNodes_cons.mpr ⟨sound_collection hd hk (by simp), sound⟩, inside⟩

theorem fields_cons (name : String) (a : Attribute) (rest : List (String × Attribute))
    (l : Location) (depth : Nat) (level : Level) :
    fields ((name, a) :: rest) l depth level =
      fields [(name, a)] l depth level >>= fields rest l depth := by
  rw [fields, fields]
  simp only [bind_assoc, fields, pure_bind]

/-- A visit of one attribute fails at its description, at its type or at its placement. -/
theorem fails_first {name : String} {a : Attribute} {l : Location} {depth : Nat} {level : Level}
    (h : Fails (fields [(name, a)] l depth level) s e) :
    (∃ cause, Comment.parse a.traits.description = .error cause ∧
      e = .context (.field (l.field (.ofSnake name)).source)
        (.comment a.traits.description cause)) ∨
    ∃ comment s₁, Comment.parse a.traits.description = .ok comment ∧
      Returns (registerIgnored (l.field (.ofSnake name))) s () s₁ ∧
      ((∃ e', Fails (schema a (l.field (.ofSnake name)) depth) s₁ e' ∧
          e = .context (.fieldType (l.field (.ofSnake name)).source) e') ∨
        ∃ variants s₂ e', Returns (schema a (l.field (.ofSnake name)) depth) s₁ variants s₂ ∧
          Fails (placeVariants
            (.ofAttribute s₂.config (.ofSnake name) (l.field (.ofSnake name)) a.traits comment)
            variants level) s₂ e' ∧
          e = .context (.field (l.field (.ofSnake name)).source) e') := by
  rw [fields] at h
  obtain h | ⟨comment, _, hcomment, h⟩ := fails_bind.mp h
  · exact .inl (fails_commentOf h)
  obtain ⟨hparsed, rfl⟩ := returns_commentOf.mp hcomment
  obtain h | ⟨_, s₁, hregistered, h⟩ := fails_bind.mp h
  · exact absurd h (not_fails_of_settles settles_registerIgnored)
  refine .inr ⟨comment, s₁, hparsed, hregistered, ?_⟩
  obtain h | ⟨variants, s₂, hresolved, h⟩ := fails_bind.mp h
  · exact .inl (fails_within.mp h)
  obtain h | ⟨site, _, hsite, h⟩ := fails_bind.mp h
  · exact absurd h (not_fails_of_settles settles_siteOf)
  obtain ⟨rfl, rfl⟩ := returns_siteOf.mp hsite
  obtain h | ⟨placed, s₃, -, h⟩ := fails_bind.mp h
  · obtain ⟨e', hplace, rfl⟩ := fails_within.mp h
    exact .inr ⟨variants, s₂, e', returns_within.mp hresolved, hplace, rfl⟩
  · rw [fields] at h
    exact absurd h not_fails_pure

end attributes

end Build

end ResourceTypes
