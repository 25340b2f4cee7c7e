import Mathlib.Logic.Function.Iterate
import ResourceTypes.Proofs.Build.Run
import ResourceTypes.Proofs.Schema.Nested

/-! # Resolving attributes

`Attribute.variants` is what an attribute resolves to, given the type names of the resource to
which it leads; `Build.schema` computes it (`returns_schema_of_flat`,
`returns_schema_of_nested`): an attribute that leads to no resource leaves the state alone, and
one that leads to a resource does nothing but build it, below all the collections on the way.

`variants_of_nested` gives the variants in the second case: the observation type inside the
wrappers of the collections, then the parameters type unless the innermost collection is only
observed.  An element schema between the attribute and the resource makes both of them take the
flag of the attribute. -/

namespace ResourceTypes

open Build

/-- The location of the resource to which an attribute leads. -/
def Location.inside (l : Location) (a : Attribute) : Location := Location.element^[a.edges] l

@[simp] theorem Location.names_iterate_element (n : Nat) (l : Location) :
    (Location.element^[n] l).names = l.names := by
  induction n generalizing l with
  | zero => rfl
  | succ n ih => exact ih l.element

@[simp] theorem Location.names_inside (l : Location) (a : Attribute) :
    (l.inside a).names = l.names :=
  l.names_iterate_element a.edges

namespace Attribute

/-- A type inside the wrappers of all collections from the attribute down. -/
def wrap : Attribute → ValueType → ValueType
  | .mk traits (.schema inner), t => collectionOf traits.kind (inner.wrap t)
  | .mk traits .unset, t | .mk traits (.primitive _), t | .mk traits (.resource _), t =>
    collectionOf traits.kind t

/-- The variants of an attribute of which `elements` are those of its element. -/
def variantsOver (traits : Traits) (elements : List Variant) : List Variant :=
  match Primitive.ofKind? traits.kind with
  | some p => [⟨.pointer (.primitive p), traits.isObservation⟩]
  | none => elements.map fun v => { v with type := collectionOf traits.kind v.type }

/-- The variants of an attribute, given the type names of the resource to which it leads. -/
def variants (names : Option TypeNames) : Attribute → List Variant
  | .mk traits .unset => variantsOver traits [⟨.primitive .string, traits.isObservation⟩]
  | .mk traits (.primitive kind) =>
    variantsOver traits
      ((Primitive.ofKind? kind).toList.map fun p => ⟨.primitive p, traits.isObservation⟩)
  | .mk traits (.schema inner) =>
    variantsOver traits
      ((inner.variants names).map fun v => { v with isObservation := traits.isObservation })
  | .mk traits (.resource _) =>
    variantsOver traits
      (names.toList.flatMap fun n =>
        ⟨.named n.observation, true⟩ ::
          if traits.isObservation then [] else [⟨.named n.parameters, false⟩])

theorem ofKind?_collection {kind : ValueKind} (h : kind.isCollection = true) :
    Primitive.ofKind? kind = none := by
  cases kind <;> first | rfl | cases h

theorem variantsOver_collection {traits : Traits} (elements : List Variant)
    (h : traits.kind.isCollection = true) :
    variantsOver traits elements =
      elements.map fun v => { v with type := collectionOf traits.kind v.type } := by
  rw [variantsOver, ofKind?_collection h]

/-- The variants of an attribute that leads to a resource. -/
theorem variants_of_nested {a : Attribute} {r : Resource} (n : TypeNames)
    (h : a.nested? = some r) :
    a.variants (some n) =
      ⟨a.wrap (.named n.observation), a.holdsDirectly || a.isObservation⟩ ::
        if a.innermost.isObservation then []
        else [⟨a.wrap (.named n.parameters), a.isObservation⟩] := by
  induction a using chain_induction with
  | scalar traits element hk => simp [nested?_scalar element hk] at h
  | unset traits hk => simp [nested?] at h
  | primitive traits kind hk => simp [nested?] at h
  | resource traits inner hk =>
      rw [variants, variantsOver_collection _ hk]
      cases ho : traits.isObservation <;>
        simp [ho, wrap, holdsDirectly, innermost, isObservation, Attribute.traits]
  | schema traits inner hk ih =>
      rw [nested?_schema inner hk] at h
      rw [variants, variantsOver_collection _ hk, ih h]
      cases ho : inner.innermost.isObservation <;>
        simp [ho, wrap, holdsDirectly, innermost, isObservation, Attribute.traits]

theorem named?_collectionOf (kind : ValueKind) (t : ValueType) :
    (collectionOf kind t).named? = t.named? := by
  unfold collectionOf
  split <;> rfl

@[simp] theorem named?_wrap : ∀ (a : Attribute) (t : ValueType), (a.wrap t).named? = t.named?
  | .mk _ .unset, t | .mk _ (.primitive _), t | .mk _ (.resource _), t => named?_collectionOf _ t
  | .mk _ (.schema inner), t => (named?_collectionOf _ _).trans (named?_wrap inner t)

end Attribute

namespace Build

variable {s t : BuildState}

theorem schema_eq (traits : Traits) (element : Element) (l : Location) (depth : Nat) :
    schema (.mk traits element) l depth =
      if maxDepth ≤ depth then throw (.depthLimit maxDepth)
      else match Primitive.ofKind? traits.kind with
        | some p => return [⟨.pointer (.primitive p), traits.isObservation⟩]
        | none =>
          if traits.kind.isCollection then do
            let variants ← elementVariants element traits.isObservation l depth
            return variants.map fun v => { v with type := collectionOf traits.kind v.type }
          else throw (.invalidKind traits.kind) := by
  unfold schema
  rfl

theorem returns_schema_collection {traits : Traits} {element : Element} {l : Location}
    {depth : Nat} {variants : List Variant} (hk : traits.kind.isCollection = true)
    (h : Returns (schema (.mk traits element) l depth) s variants t) :
    ∃ elements, Returns (elementVariants element traits.isObservation l depth) s elements t ∧
      variants = Attribute.variantsOver traits elements := by
  rw [schema_eq, Attribute.ofKind?_collection hk, if_pos hk] at h
  split at h
  · exact absurd h not_returns_throw
  · obtain ⟨elements, u, he, hp⟩ := returns_bind.mp h
    obtain ⟨rfl, rfl⟩ := returns_pure.mp hp
    exact ⟨elements, he, (Attribute.variantsOver_collection elements hk).symm⟩

/-- An attribute that leads to no resource resolves to its variants and changes nothing. -/
theorem returns_schema_of_flat {a : Attribute} {l : Location} {depth : Nat}
    {variants : List Variant} (ha : a.nested? = none)
    (h : Returns (schema a l depth) s variants t) : variants = a.variants none ∧ s = t := by
  induction a using Attribute.chain_induction generalizing l depth variants with
  | scalar traits element hk =>
      rw [schema_eq] at h
      split at h
      · exact absurd h not_returns_throw
      split at h
      next p hp =>
        obtain ⟨rfl, rfl⟩ := returns_pure.mp h
        cases element <;> simp [Attribute.variants, Attribute.variantsOver, hp]
      next => simp [hk] at h
  | unset traits hk =>
      obtain ⟨elements, he, rfl⟩ := returns_schema_collection hk h
      rw [elementVariants] at he
      obtain ⟨rfl, rfl⟩ := returns_pure.mp he
      exact ⟨by rw [Attribute.variants], rfl⟩
  | primitive traits kind hk =>
      obtain ⟨elements, he, rfl⟩ := returns_schema_collection hk h
      rw [elementVariants] at he
      split at he
      next p hp =>
        obtain ⟨rfl, rfl⟩ := returns_pure.mp he
        simp [Attribute.variants, hp]
      next => exact absurd he not_returns_throw
  | resource traits inner hk => simp [Attribute.nested?_resource inner hk] at ha
  | schema traits inner hk ih =>
      rw [Attribute.nested?_schema inner hk] at ha
      obtain ⟨elements, he, rfl⟩ := returns_schema_collection hk h
      rw [elementVariants] at he
      obtain ⟨vs, u, hi, hp⟩ := returns_bind.mp he
      obtain ⟨rfl, rfl⟩ := returns_pure.mp hp
      obtain ⟨rfl, rfl⟩ := ih ha (returns_within.mp hi)
      exact ⟨by rw [Attribute.variants], rfl⟩

/-- An attribute that leads to a resource builds it and resolves to variants of its types. -/
theorem returns_schema_of_nested {a : Attribute} {r : Resource} {l : Location} {depth : Nat}
    {variants : List Variant} (ha : a.nested? = some r)
    (h : Returns (schema a l depth) s variants t) :
    ∃ refs : TypeRef × TypeRef,
      Returns (resource r (l.inside a) (depth + a.edges)) s refs t ∧
        variants = a.variants (some ⟨refs.1.name, refs.2.name⟩) := by
  induction a using Attribute.chain_induction generalizing l depth variants with
  | scalar traits element hk => simp [Attribute.nested?_scalar element hk] at ha
  | unset traits hk => simp [Attribute.nested?] at ha
  | primitive traits kind hk => simp [Attribute.nested?] at ha
  | resource traits inner hk =>
      rw [Attribute.nested?_resource inner hk] at ha
      cases ha
      obtain ⟨elements, he, rfl⟩ := returns_schema_collection hk h
      rw [elementVariants] at he
      obtain ⟨refs, u, hr, hp⟩ := returns_bind.mp he
      have hu : elements = (if traits.isObservation then [⟨.named refs.2.name, true⟩]
          else [⟨.named refs.2.name, true⟩, ⟨.named refs.1.name, false⟩]) ∧ u = t := by
        dsimp only at hp
        split at hp <;>
          · obtain ⟨rfl, rfl⟩ := returns_pure.mp hp
            simp [*]
      obtain ⟨rfl, rfl⟩ := hu
      refine ⟨refs, returns_within.mp hr, ?_⟩
      rw [Attribute.variants]
      cases traits.isObservation <;> simp
  | schema traits inner hk ih =>
      rw [Attribute.nested?_schema inner hk] at ha
      obtain ⟨elements, he, rfl⟩ := returns_schema_collection hk h
      rw [elementVariants] at he
      obtain ⟨vs, u, hi, hp⟩ := returns_bind.mp he
      obtain ⟨rfl, rfl⟩ := returns_pure.mp hp
      obtain ⟨refs, hr, rfl⟩ := ih ha (returns_within.mp hi)
      refine ⟨refs, ?_, by rw [Attribute.variants]⟩
      rw [Attribute.edges, Location.inside, Attribute.edges, Function.iterate_succ_apply,
        ← Nat.add_assoc, Nat.add_right_comm]
      exact hr

end Build

end ResourceTypes
