import ResourceTypes.Proofs.Build.Walk

/-! # The shape of resolved types

`Attribute.Shape` follows an attribute down its element schemas to what the last collection holds:
it gives the kinds of the collections on the way, and the type of what they hold, which is a pointer
only for an attribute that is no collection.  An attribute that leads to no resource resolves to one
variant of that shape (`returns_schema_flat`).  A collection of a resource resolves to variants of
the two types of the resource, which are the last to be emitted (`types_of_resource`).  Both are in
`resolved_shapes`. -/

namespace ResourceTypes

open Build

/-- A type inside collections of the given kinds, the first of them outermost. -/
def ValueType.collected (kinds : List ValueKind) (t : ValueType) : ValueType :=
  kinds.foldr (fun kind inner => if kind = .map then .map inner else .list inner) t

/-- The kinds of the collections from an attribute down, and the type of what the last one holds. -/
inductive Attribute.Shape : Attribute → List ValueKind → ValueType → Prop
  | scalar {traits : Traits} {element : Element} {p : Primitive}
      (kind : Primitive.ofKind? traits.kind = some p) :
      Shape (.mk traits element) [] (.pointer (.primitive p))
  | unset {traits : Traits} (collects : traits.kind.isCollection = true) :
      Shape (.mk traits .unset) [traits.kind] (.primitive .string)
  | primitive {traits : Traits} {kind : ValueKind} {p : Primitive}
      (collects : traits.kind.isCollection = true) (held : Primitive.ofKind? kind = some p) :
      Shape (.mk traits (.primitive kind)) [traits.kind] (.primitive p)
  | schema {traits : Traits} {inner : Attribute} {kinds : List ValueKind} {t : ValueType}
      (collects : traits.kind.isCollection = true) (held : Shape inner kinds t) :
      Shape (.mk traits (.schema inner)) (traits.kind :: kinds) t

namespace Build

variable {s t : BuildState}

theorem exists_returns {α : Type} {x : Build α} {a : α}
    (h : (runFrom x s).1.toOption = some a) : ∃ t, Returns x s a t := by
  unfold Returns
  rcases hrun : runFrom x s with ⟨e | b, t⟩
  · rw [hrun] at h
    cases h
  · rw [hrun] at h
    exact ⟨t, by rw [Option.some.inj h]⟩

/-- An attribute that leads to no resource resolves to one variant: what its collections hold,
inside a wrapper for each of them, with the flag of the attribute. -/
theorem returns_schema_flat {a : Attribute} {l : Location} {depth : Nat} {variants : List Variant}
    (h : Returns (schema a l depth) s variants t) (ha : a.nested? = none) :
    ∃ kinds held, a.Shape kinds held ∧
      variants = [⟨.collected kinds held, a.isObservation⟩] := by
  induction a using Attribute.chain_induction generalizing l depth variants s t with
  | scalar traits element hk =>
      rw [schema_eq] at h
      split at h
      · exact absurd h not_returns_throw
      split at h
      next p hp =>
        obtain ⟨rfl, -⟩ := returns_pure.mp h
        exact ⟨[], _, .scalar hp, rfl⟩
      next => simp [hk] at h
  | unset traits hk =>
      obtain ⟨elements, he, rfl⟩ := returns_schema_collection hk h
      rw [elementVariants] at he
      obtain ⟨rfl, -⟩ := returns_pure.mp he
      exact ⟨_, _, .unset hk, Attribute.variantsOver_collection _ hk⟩
  | primitive traits kind hk =>
      obtain ⟨elements, he, rfl⟩ := returns_schema_collection hk h
      rw [elementVariants] at he
      split at he
      next p hp =>
        obtain ⟨rfl, -⟩ := returns_pure.mp he
        exact ⟨_, _, .primitive hk hp, Attribute.variantsOver_collection _ hk⟩
      next => exact absurd he not_returns_throw
  | resource traits inner hk => simp [Attribute.nested?_resource inner hk] at ha
  | schema traits inner hk ih =>
      rw [Attribute.nested?_schema inner hk] at ha
      obtain ⟨elements, he, rfl⟩ := returns_schema_collection hk h
      rw [elementVariants] at he
      obtain ⟨vs, u, hi, hp⟩ := returns_bind.mp he
      obtain ⟨rfl, -⟩ := returns_pure.mp hp
      -- The flag of the element schema is replaced, and its type gets one more wrapper.
      obtain ⟨kinds, held, hshape, rfl⟩ := ih (returns_within.mp hi) ha
      exact ⟨_, _, .schema hk hshape, Attribute.variantsOver_collection _ hk⟩

/-- The names of the two types of a resource are the next ones for its chain, and the types are the
last ones that are emitted. -/
theorem types_of_resource {r : Resource} {l : Location} {depth : Nat} {refs : TypeRef × TypeRef}
    (h : Returns (resource r l depth) s refs t) :
    ∃ n u emitted parameters observation, s.symbols.nameLevel l.names = .ok (n, u) ∧
      t.types = emitted ++ [⟨n.parameters, parameters⟩, ⟨n.observation, observation⟩] ∧
      refs.1.name = n.parameters ∧ refs.2.name = n.observation := by
  obtain ⟨attributes⟩ := r
  obtain ⟨opened, filled, u, v, hopen, hfill, hclose⟩ := returns_resource h
  obtain ⟨n, table, hnames, rfl, -⟩ := returns_openLevel.mp hopen
  obtain ⟨levels, hwalk⟩ := walk_of_fields hfill
  obtain ⟨rfl, -, htypes⟩ := returns_closeLevel hclose
  have hkept : filled.typeNames = n := hwalk.level_names
  subst hkept
  exact ⟨_, table, v.types, _, _, hnames, htypes, rfl, rfl⟩

/-- What an attribute resolves to: one variant if it leads to no resource, and variants of the two
types of the resource if it is a collection of one. -/
theorem resolved_shapes {a : Attribute} {l : Location} {depth : Nat} {variants : List Variant}
    (h : Returns (schema a l depth) s variants t) :
    (a.nested? = none → ∃ kinds held, a.Shape kinds held ∧
      variants = [⟨.collected kinds held, a.isObservation⟩]) ∧
    ∀ inner, a.element = .resource inner → a.kind.isCollection = true →
      ∃ n u emitted parameters observation, s.symbols.nameLevel l.names = .ok (n, u) ∧
        t.types = emitted ++ [⟨n.parameters, parameters⟩, ⟨n.observation, observation⟩] ∧
        variants = ⟨.collected [a.kind] (.named n.observation), true⟩ ::
          if a.isObservation then []
          else [⟨.collected [a.kind] (.named n.parameters), false⟩] := by
  refine ⟨returns_schema_flat h, ?_⟩
  rintro inner he hk
  obtain ⟨traits, element⟩ := a
  obtain rfl : element = .resource inner := he
  have hnested : (Attribute.mk traits (.resource inner)).nested? = some inner :=
    Attribute.nested?_resource inner hk
  have hwrap (named : ValueType) :
      (Attribute.mk traits (.resource inner)).wrap named = .collected [traits.kind] named := by
    rw [Attribute.wrap]
    rfl
  obtain ⟨refs, hr, rfl⟩ := returns_schema_of_nested hnested h
  obtain ⟨n, u, emitted, parameters, observation, hnames, htypes, hp, ho⟩ := types_of_resource hr
  rw [Location.names_inside] at hnames
  refine ⟨n, u, emitted, parameters, observation, hnames, htypes, ?_⟩
  rw [Attribute.variants_of_nested _ hnested, hp, ho, hwrap, hwrap, Attribute.holdsDirectly,
    Attribute.innermost, Bool.true_or, Attribute.kind, Attribute.isObservation, Attribute.traits]
  cases traits.isObservation <;> rfl

/-- A map of lists of numbers, of which the numbers say that they are only observed. -/
def layeredAttribute : Attribute :=
  .mk { kind := .map } (.schema (.mk { kind := .list } (.schema
    (.mk { kind := .int, computed := true } .unset))))

/-- A set of resources without attributes. -/
def collectingAttribute : Attribute := .mk { kind := .set } (.resource .empty)

/-- The state in front of a build in which no name is taken. -/
def freshState : BuildState := { symbols := .ofNames [], config := { name := "k", kind := "K" } }

theorem resolved_shapes_layered :
    (∃ kinds held, layeredAttribute.Shape kinds held ∧
      [⟨.map (.list (.pointer (.primitive .int64))), false⟩] =
        [Variant.mk (.collected kinds held) layeredAttribute.isObservation]) ∧
    ∃ n u, freshState.symbols.nameLevel ["K"] = .ok (n, u) ∧
      [⟨.list (.named "KObservation"), true⟩, ⟨.list (.named "KParameters"), false⟩] =
        [Variant.mk (.collected [.set] (.named n.observation)) true,
          Variant.mk (.collected [.set] (.named n.parameters)) false] := by
  constructor
  · obtain ⟨t, h⟩ := exists_returns
      (show (runFrom (schema layeredAttribute (.root "K") 0) freshState).1.toOption =
        some [⟨.map (.list (.pointer (.primitive .int64))), false⟩] by decide +kernel)
    exact (resolved_shapes h).1 rfl
  · obtain ⟨t, h⟩ := exists_returns
      (show (runFrom (schema collectingAttribute (.root "K") 0) freshState).1.toOption =
        some [⟨.list (.named "KObservation"), true⟩, ⟨.list (.named "KParameters"), false⟩]
        by decide +kernel)
    obtain ⟨n, u, _, _, _, hnames, -, hvariants⟩ := (resolved_shapes h).2 .empty rfl rfl
    exact ⟨n, u, hnames, hvariants⟩

end Build

end ResourceTypes
