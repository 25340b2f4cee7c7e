import ResourceTypes.Proofs.Build.Resolution

/-! # Flags of variants

A variant is flagged as observed or as one that can be set.  All variants of an attribute have
the flag of the attribute, but for a resource that is its element, which gives a variant of
either flag (`isObservation_variants`); an attribute that is only observed has no other variants
at all (`isObservation_variants_of_isObservation`).  Only the kind of a text resolves to a text
(`variants_of_string`, `isStringLike_variants`). -/

namespace ResourceTypes

open Build

namespace Attribute

/-- The variants of a text are one pointer to a text. -/
theorem variants_of_string {a : Attribute} (names : Option TypeNames) (h : a.kind = .string) :
    a.variants names = [⟨.pointer (.primitive .string), a.isObservation⟩] := by
  obtain ⟨traits, element⟩ := a
  have hk : Primitive.ofKind? traits.kind = some .string := by
    rw [show traits.kind = .string from h]
    rfl
  cases element <;> simp [variants, variantsOver, hk, isObservation, Attribute.traits]

theorem isStringLike_variantsOver {traits : Traits} (elements : List Variant)
    (h : traits.kind ≠ .string) :
    ∀ v ∈ variantsOver traits elements, v.type.isStringLike = false := by
  intro v hv
  unfold variantsOver at hv
  split at hv
  next p hp =>
    rw [List.mem_singleton.mp hv]
    cases hk : traits.kind <;> rw [hk] at hp h <;> cases hp <;> first | rfl | exact absurd rfl h
  next =>
    obtain ⟨w, -, rfl⟩ := List.mem_map.mp hv
    dsimp only
    unfold collectionOf
    split <;> rfl

/-- No variant of another kind is a text. -/
theorem isStringLike_variants {a : Attribute} {names : Option TypeNames} (h : a.kind ≠ .string) :
    ∀ v ∈ a.variants names, v.type.isStringLike = false := by
  obtain ⟨traits, element⟩ := a
  cases element <;> exact isStringLike_variantsOver _ h

theorem isObservation_variantsOver {traits : Traits} {elements : List Variant} {P : Bool → Prop}
    (ht : P traits.isObservation) (he : ∀ v ∈ elements, P v.isObservation) :
    ∀ v ∈ variantsOver traits elements, P v.isObservation := by
  intro v hv
  unfold variantsOver at hv
  split at hv
  · rw [List.mem_singleton.mp hv]
    exact ht
  · obtain ⟨w, hw, rfl⟩ := List.mem_map.mp hv
    exact he w hw

/-- Variants have the flag of the attribute, but for those of a resource that is the element. -/
theorem isObservation_variants {a : Attribute} {names : Option TypeNames}
    (h : a.holdsDirectly = false) : ∀ v ∈ a.variants names, v.isObservation = a.isObservation := by
  obtain ⟨traits, element⟩ := a
  show ∀ v ∈ variants names (mk traits element), v.isObservation = traits.isObservation
  cases element with
  | resource inner => cases h
  | unset | primitive _ | schema _ =>
      exact isObservation_variantsOver (P := fun o => o = traits.isObservation) rfl (by simp)

/-- An attribute that is only observed has no settable variant. -/
theorem isObservation_variants_of_isObservation {a : Attribute} {names : Option TypeNames}
    (h : a.isObservation = true) : ∀ v ∈ a.variants names, v.isObservation = true := by
  cases hd : a.holdsDirectly with
  | false => exact fun v hv => (isObservation_variants hd v hv).trans h
  | true =>
      obtain ⟨traits, element⟩ := a
      cases element with
      | resource inner =>
          have ht : traits.isObservation = true := h
          refine isObservation_variantsOver (P := fun o => o = true) ht ?_
          cases names <;> simp [ht]
      | unset | primitive _ | schema _ => cases hd

end Attribute

end ResourceTypes
