import ResourceTypes.Proofs.Build.Faults
import ResourceTypes.Proofs.Build.Worlds

/-! # Values of attributes

`Attribute.valueType` is the type of the value of an attribute: a pointer to a scalar, or a list or
a map for each collection on the way to the elements, which are scalars or values of a generated
type.  An attribute that leads to no resource has this value as its one variant, with the flag of
the attribute (`variants_of_flat`).

When no element schema leads to a resource, an attribute that leads to one has it as its own
element.  Then the variants of every attribute are decided by two flags alone (`variants_eq`):
a variant to be observed if the attribute is only observed or collects a resource, and a variant
to be set unless the attribute is only observed. -/

namespace ResourceTypes

open Build

/-- The name of the type of a nested resource for one world; without a resource there is none. -/
def nestedName (names : Option TypeNames) (observed : Bool) : String :=
  (names.map fun n => n.ofWorld observed).getD ""

namespace Attribute

/-- The type of a value whose elements, if it has any, are of type `element`. -/
def valueTypeOver (traits : Traits) (element : ValueType) : ValueType :=
  match Primitive.ofKind? traits.kind with
  | some p => .pointer (.primitive p)
  | none => collectionOf traits.kind element

/-- The type of the value of an attribute, where the resource to which it leads has the generated
type of the given name. -/
def valueType (named : String) : Attribute → ValueType
  | .mk traits .unset => valueTypeOver traits (.primitive .string)
  | .mk traits (.primitive kind) =>
    valueTypeOver traits (.primitive ((Primitive.ofKind? kind).getD .string))
  | .mk traits (.schema inner) => valueTypeOver traits (inner.valueType named)
  | .mk traits (.resource _) => valueTypeOver traits (.named named)

/-- A list, set or map whose element is a nested resource. -/
def collectsResource (a : Attribute) : Bool := a.kind.isCollection && a.holdsDirectly

theorem collectsResource_of_flat {a : Attribute} (h : a.nested? = none) :
    a.collectsResource = false := by
  obtain ⟨traits, element⟩ := a
  cases element with
  | resource inner =>
      cases hk : traits.kind.isCollection with
      | false => simp [collectsResource, kind, Attribute.traits, hk]
      | true =>
          rw [nested?_resource inner hk] at h
          cases h
  | unset | primitive _ | schema _ => exact Bool.and_false _

theorem isCollection_of_nested {a : Attribute} {r : Resource} (h : a.nested? = some r) :
    a.kind.isCollection = true := by
  by_contra hk
  rw [nested?_of_kind (Bool.not_eq_true _ ▸ hk)] at h
  cases h

/-! ### One value -/

theorem variantsOver_singleton (traits : Traits) (t : ValueType) :
    variantsOver traits [⟨t, traits.isObservation⟩] =
      [⟨valueTypeOver traits t, traits.isObservation⟩] := by
  unfold variantsOver valueTypeOver
  cases Primitive.ofKind? traits.kind <;> rfl

theorem variantsOver_of_nil {traits : Traits} (t : ValueType) (h : variantsOver traits [] ≠ []) :
    variantsOver traits [] = [⟨valueTypeOver traits t, traits.isObservation⟩] := by
  unfold variantsOver valueTypeOver at *
  cases hp : Primitive.ofKind? traits.kind with
  | none =>
      rw [hp] at h
      exact absurd rfl h
  | some p => rfl

/-- Without a resource an attribute that has a variant has its value as the only one. -/
theorem variants_of_flat (named : String) : ∀ a : Attribute, a.variants none ≠ [] →
    a.variants none = [⟨a.valueType named, a.isObservation⟩]
  | .mk traits .unset, _ => variantsOver_singleton traits _
  | .mk traits (.primitive kind), h => by
      rw [variants] at h ⊢
      rw [valueType]
      cases hp : Primitive.ofKind? kind with
      | none =>
          rw [hp] at h
          exact variantsOver_of_nil _ h
      | some p => exact variantsOver_singleton traits _
  | .mk traits (.resource _), h => variantsOver_of_nil _ h
  | .mk traits (.schema inner), h => by
      rw [variants] at h ⊢
      rw [valueType]
      by_cases hi : inner.variants none = []
      · rw [hi] at h ⊢
        exact variantsOver_of_nil _ h
      · rw [variants_of_flat named inner hi]
        exact variantsOver_singleton traits _

theorem wrap_of_holdsDirectly {named : String} : ∀ {a : Attribute}, a.holdsDirectly = true →
    a.kind.isCollection = true → a.wrap (.named named) = a.valueType named
  | .mk traits (.resource inner), _, hk => by
      have hnone : Primitive.ofKind? traits.kind = none := ofKind?_collection hk
      rw [wrap, valueType, valueTypeOver, hnone]

/-! ### Variants by flags -/

/-- Where only collected resources are led to, the variants are decided by the flags. -/
theorem variants_eq {kind : String} {a : Attribute} {p : FieldPath} {names : Option TypeNames}
    (hn : names.isSome = a.nested?.isSome) (sound : SoundNodes kind (a.nodes p))
    (direct : a.nested?.isSome = true → a.holdsDirectly = true) :
    a.variants names =
      (if a.isObservation || a.collectsResource then [⟨a.valueType (nestedName names true), true⟩]
        else []) ++
      if a.isObservation then [] else [⟨a.valueType (nestedName names false), false⟩] := by
  have hne := variants_ne_nil hn sound
  cases hr : a.nested? with
  | none =>
      rw [hr, Option.isSome_none, Option.isSome_eq_false_iff, Option.isNone_iff_eq_none] at hn
      subst hn
      rw [variants_of_flat "" a hne, collectsResource_of_flat hr]
      cases a.isObservation <;> rfl
  | some r =>
      rw [hr] at hn direct
      obtain ⟨n, rfl⟩ := Option.isSome_iff_exists.mp hn
      have hd := direct rfl
      have hk := isCollection_of_nested hr
      rw [variants_of_nested n hr, wrap_of_holdsDirectly hd hk, wrap_of_holdsDirectly hd hk,
        innermost_of_holdsDirectly hd, collectsResource, hd, hk]
      cases a.isObservation <;> rfl

end Attribute

end ResourceTypes
