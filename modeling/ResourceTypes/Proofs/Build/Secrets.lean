import ResourceTypes.Proofs.Build.Contributions
import ResourceTypes.Proofs.Build.Faults

/-! # Secrets

An attribute is hidden when it has no field but a reference to a secret.  In a build that succeeds
the hidden attributes are the sensitive ones (`Contribution.hidden_iff`): one that is only
observed has no field at all, and one that can be set is a text, with `Site.secretRef` in its
place.

An element schema may be sensitive too, but its flag is not read, so that its value is hidden only
when the attribute around it is.  Hence `secrets_hidden_iff`: all secrets of a schema are hidden
exactly when every reached attribute with a sensitive element schema inside is sensitive itself. -/

namespace ResourceTypes

open Build

/-- A key of a secret, possibly absent. -/
def ValueType.isSecretRef : ValueType → Bool
  | .secretKeySelector | .pointer .secretKeySelector => true
  | _ => false

/-- The attribute or an element schema inside it is sensitive. -/
def Reached.HoldsSecret (r : Reached) : Prop :=
  ∃ v ∈ r.attr.nodes r.path, v.2.traits.sensitive = true

/-- No field, or one reference to a secret with its companions in place of the attribute. -/
def Contribution.Hidden {config : Config} (c : Contribution config) : Prop :=
  c.fieldsOf true = [] ∧
    (c.fieldsOf false = [] ∨ ∃ f, f.type.isSecretRef = true ∧
      c.fieldsOf false = f :: c.site.reference.toList.flatMap (companions f))

/-! ### References to secrets -/

/-- The reference that takes the place of a secret that can be set. -/
def Site.secretRef (s : Site) : Field :=
  let tag := (FieldName.ofCamel (s.name.camel ++ secretRefSuffix)).tag
  s.tagged false
    ⟨s.name.camel ++ secretRefSuffix,
      if s.optional then .pointer .secretKeySelector else .secretKeySelector,
      ⟨if s.optional then tag ++ omitEmpty else tag, suppressedTag⟩⟩

theorem Site.isSecretRef_secretRef (s : Site) : s.secretRef.type.isSecretRef = true := by
  show ValueType.isSecretRef (if s.optional then _ else _) = true
  cases s.optional <;> rfl

theorem Site.parameterFields_secret {s : Site} {v : Variant} (hs : s.sensitive = true)
    (ho : v.isObservation = false) (ht : v.type.isStringLike = true) :
    s.parameterFields v = s.secretRef :: s.reference.toList.flatMap (companions s.secretRef) := by
  cases hopt : s.optional <;>
    simp [parameterFields, base, secretField?, secretRef, hs, ho, ht, hopt]

theorem Attribute.isSecretRef_variantsOver {traits : Traits} (elements : List Variant) :
    ∀ v ∈ variantsOver traits elements, v.type.isSecretRef = false := by
  intro v hv
  unfold variantsOver at hv
  split at hv
  · rw [List.mem_singleton.mp hv]
    rfl
  · obtain ⟨w, -, rfl⟩ := List.mem_map.mp hv
    dsimp only
    unfold collectionOf
    split <;> rfl

theorem Attribute.isSecretRef_variants {a : Attribute} {names : Option TypeNames} :
    ∀ v ∈ a.variants names, v.type.isSecretRef = false := by
  obtain ⟨traits, element⟩ := a
  cases element <;> exact isSecretRef_variantsOver _

/-! ### Hidden attributes -/

namespace Contribution

variable {config : Config} (c : Contribution config)

theorem fieldsOf_sensitive (sound : ∀ e, ¬ c.reached.Fault config.kind e)
    (hs : c.reached.attr.traits.sensitive = true) (observed : Bool) :
    c.fieldsOf observed =
      if observed || c.reached.attr.isObservation then []
      else c.site.secretRef :: c.site.reference.toList.flatMap (companions c.site.secretRef) := by
  have hsite : c.site.sensitive = true := hs
  cases observed with
  | true => simp [fieldsOf, Site.observationFields, hsite]
  | false =>
      cases ho : c.reached.attr.isObservation with
      | true =>
          refine List.flatMap_eq_nil_iff.mpr fun v hv => ?_
          have hv := Attribute.isObservation_variants_of_isObservation ho v hv
          exact Site.parameterFields_observed hv
      | false =>
          have hk := c.reached.kind_of_sensitive sound hs ho
          rw [fieldsOf, variants, Attribute.variants_of_string _ hk, List.flatMap_singleton,
            if_neg Bool.false_ne_true, Site.parameterFields_secret hsite ho rfl]
          rfl

theorem hidden_of_sensitive (sound : ∀ e, ¬ c.reached.Fault config.kind e)
    (hs : c.reached.attr.traits.sensitive = true) : c.Hidden := by
  refine ⟨c.fieldsOf_sensitive sound hs true, ?_⟩
  rw [c.fieldsOf_sensitive sound hs false]
  cases c.reached.attr.isObservation with
  | true => exact .inl rfl
  | false => exact .inr ⟨c.site.secretRef, c.site.isSecretRef_secretRef, rfl⟩

theorem not_hidden (sound : ∀ e, ¬ c.reached.Fault config.kind e)
    (hs : c.reached.attr.traits.sensitive = false) : ¬ c.Hidden := by
  have hsite : c.site.sensitive = false := hs
  have hne : c.variants ≠ [] := Attribute.variants_ne_nil (p := c.reached.path) c.leads
    fun v hv e he => sound e (.node hv he)
  obtain ⟨v, rest, hv⟩ := List.exists_cons_of_ne_nil hne
  have htype : v.type.isSecretRef = false :=
    Attribute.isSecretRef_variants v (hv ▸ List.mem_cons_self : v ∈ c.variants)
  rintro ⟨hobserved, hsettable⟩
  rw [fieldsOf, hv, List.flatMap_cons] at hobserved hsettable
  cases ho : v.isObservation with
  | true => simp [Site.observationFields, ho, hsite] at hobserved
  | false =>
      simp only [Site.parameterFields, Site.base, ho, hsite, Bool.false_eq_true, if_false,
        List.cons_append, reduceCtorEq, false_or] at hsettable
      obtain ⟨f, hf, hfields⟩ := hsettable
      rw [← (List.cons.inj hfields).1] at hf
      exact Bool.false_ne_true (htype.symm.trans hf)

/-- The hidden attributes are the sensitive ones. -/
theorem hidden_iff (sound : ∀ e, ¬ c.reached.Fault config.kind e) :
    c.Hidden ↔ c.reached.attr.traits.sensitive = true := by
  cases hs : c.reached.attr.traits.sensitive with
  | true => exact iff_of_true (c.hidden_of_sensitive sound hs) rfl
  | false => exact iff_of_false (c.not_hidden sound hs) Bool.false_ne_true

end Contribution

/-! ### Main statement -/

/-- The secrets among the attributes are hidden exactly when an attribute with a sensitive element
schema inside is sensitive itself. -/
theorem secrets_hidden_iff {schema : Resource} {config : Config} {symbols : SymbolTable}
    {g : Generated} (h : (build schema config symbols).outcome = .ok g) :
    ∃ levels : Forest (FilledLevel config),
      LaidOut schema config.kind g (levels.map FilledLevel.built) ∧
      ((contributionsOf levels).map Contribution.reached).Perm schema.reached ∧
      ((∀ c ∈ contributionsOf levels, c.reached.HoldsSecret → c.Hidden) ↔
        ∀ r ∈ schema.reached, r.HoldsSecret → r.attr.traits.sensitive = true) := by
  have sound := sound_of_build h
  obtain ⟨levels, hb⟩ := built_of_build h
  have hlaid := hb.laidOut
  obtain ⟨filled, rfl, hperm⟩ := hb.filled
  refine ⟨filled, hlaid, hperm, ?_⟩
  have mem {c : Contribution config} (hc : c ∈ contributionsOf filled) :
      c.reached ∈ schema.reached :=
    hperm.mem_iff.mp (List.mem_map_of_mem hc)
  constructor
  · intro hidden r hr hsecret
    obtain ⟨c, hc, rfl⟩ := List.mem_map.mp (hperm.mem_iff.mpr hr)
    exact (c.hidden_iff (sound _ hr)).mp (hidden c hc hsecret)
  · intro flagged c hc hsecret
    exact (c.hidden_iff (sound _ (mem hc))).mpr (flagged _ (mem hc) hsecret)

/-- A list of secrets that is only observed, flagged itself or not. -/
def secretListSchema (flagged : Bool) : Resource :=
  .mk
    [("a", .mk { kind := .list, computed := true, sensitive := flagged }
      (.schema (.mk { kind := .string, sensitive := true } .unset)))]

/-- A list that is flagged hides the secrets in it. -/
theorem secrets_hidden_iff_flagged :
    ∃ g, ∃ levels : Forest (FilledLevel { name := "n", kind := "K" }),
      (build (secretListSchema true) { name := "n", kind := "K" } .empty).outcome = .ok g ∧
      LaidOut (secretListSchema true) "K" g (levels.map FilledLevel.built) ∧
      ∃ c ∈ contributionsOf levels, c.reached.HoldsSecret ∧ c.Hidden := by
  obtain ⟨g, hg, -⟩ := BuildResult.exists_ok (f := fun g => g.types.length)
    (show (build (secretListSchema true) { name := "n", kind := "K" } .empty).outcome.toOption.map
      _ = some 2 by decide +kernel)
  obtain ⟨levels, hlaid, hperm, hiff⟩ := secrets_hidden_iff hg
  refine ⟨g, levels, hg, hlaid, ?_⟩
  have hr : (secretListSchema true).reached = [⟨.root, [], "a", _⟩] := rfl
  rw [hr] at hperm
  obtain ⟨c, hc, hcr⟩ := List.mem_map.mp (hperm.mem_iff.mpr (List.mem_singleton_self _))
  have hsecret : c.reached.HoldsSecret := hcr ▸ ⟨_, Attribute.self_mem_nodes _ _, rfl⟩
  refine ⟨c, hc, hsecret, hiff.mpr ?_ c hc hsecret⟩
  rw [hr]
  exact fun r hr' _ => by rw [List.mem_singleton.mp hr']; rfl

/-- A list that is not flagged exposes the secrets in it. -/
theorem secret_exposed_in_list :
    ∃ g, (build (secretListSchema false) { name := "n", kind := "K" } .empty).outcome = .ok g ∧
      g.types = [⟨"KParameters", []⟩, ⟨"KObservation",
        [⟨"A", .list (.pointer (.primitive .string)), ⟨"a,omitempty", "a,omitempty"⟩⟩]⟩] ∧
      ∀ levels : Forest (FilledLevel { name := "n", kind := "K" }),
        ((contributionsOf levels).map Contribution.reached).Perm (secretListSchema false).reached →
          ∃ c ∈ contributionsOf levels, c.reached.HoldsSecret ∧ ¬ c.Hidden := by
  obtain ⟨g, hg, htypes⟩ := BuildResult.exists_ok (f := Generated.types)
    (show (build (secretListSchema false) { name := "n", kind := "K" } .empty).outcome.toOption.map
      _ = some [⟨"KParameters", []⟩, ⟨"KObservation",
        [⟨"A", .list (.pointer (.primitive .string)), ⟨"a,omitempty", "a,omitempty"⟩⟩]⟩] by
      decide +kernel)
  refine ⟨g, hg, htypes, fun levels hperm => ?_⟩
  have sound := sound_of_build hg
  have hr : (secretListSchema false).reached = [⟨.root, [], "a", _⟩] := rfl
  rw [hr] at hperm sound
  obtain ⟨c, hc, hcr⟩ := List.mem_map.mp (hperm.mem_iff.mpr (List.mem_singleton_self _))
  refine ⟨c, hc, ?_, c.not_hidden ?_ ?_⟩
  · rw [hcr]
    exact ⟨_, List.mem_cons_of_mem _ List.mem_cons_self, rfl⟩
  · exact sound _ (hcr ▸ List.mem_singleton_self _)
  · rw [hcr]
    rfl

end ResourceTypes
